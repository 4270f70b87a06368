import AutoImport.Proofs.Manifests.PresenceStates

/-!
# Probing once

Whether a file exists is asked for the manifests of unknown directories only, and the answer settles
the directory.  So between two caches every probe is about a directory that was unknown before and
is known after, and no two probes are about the same file (`ProbesOnce`).  As long as nothing is
forgotten, known directories stay known, and this composes: along all requests together no manifest
is probed twice, in whatever letters its directory was spelled and whatever the file system was at
each moment (`probed_once`).
-/

set_option autoImplicit false

namespace AutoImport.ManifestCache

/-- The paths that are probed for a request, in order. -/
def Request.probes (view : FileView) : Request → ManifestCache → List String
  | .search directory, cache => (cache.search view directory).probes
  | .visibleFrom fileName rootDirectory, cache =>
    (cache.visibleFrom view fileName rootDirectory).probes
  | .refresh _, _ | .delete _, _ | .forget _, _ => []

/-- The paths that are probed for requests, each of which is given the file system as it is at that
moment. -/
def probesThrough : List (FileView × Request) → ManifestCache → List String
  | [], _ => []
  | (view, request) :: rest, cache =>
    request.probes view cache ++ probesThrough rest (request.run view cache)

variable {view : FileView} {cache before middle after : ManifestCache} {directory other : String}
  {first second probes : List String}

/-! ## One directory after the other -/

/-- What is known of a directory is known of every directory whose manifest has the same key. -/
theorem knows_of_manifestKey_eq (h : Path.IsSlashRooted directory)
    (hother : Path.IsSlashRooted other)
    (hkey : cache.manifestKey directory = cache.manifestKey other)
    (hknows : cache.Knows directory) : cache.Knows other := by
  rw [knows_iff] at hknows ⊢
  unfold inDirectory? at hknows ⊢
  rwa [← hkey, ← (manifestKey_eq_iff h hother).1 hkey]

/-- What is probed in two parts is explored in two parts. -/
theorem Explores.of_append (h : Explores view before (first ++ second) after) :
    ∃ middle, Explores view before first middle ∧ Explores view middle second after := by
  induction first generalizing before with
  | nil => exact ⟨before, .rest before, h⟩
  | cons probed rest ih =>
    cases h with
    | look directory hrooted hunknown hnext =>
      obtain ⟨middle, hfirst, hsecond⟩ := ih hnext
      exact ⟨middle, .look directory hrooted hunknown hfirst, hsecond⟩

/-! ## Probes between two caches -/

/-- From the one cache to the other, manifests of unknown directories were probed, each once, and
the directories are known since. -/
structure ProbesOnce (before : ManifestCache) (probes : List String) (after : ManifestCache) :
    Prop where
  advances : before.Advances after
  manifests : ∀ probed ∈ probes, ∃ directory, Path.IsSlashRooted directory ∧
    probed = Path.join directory manifestName ∧ ¬before.Knows directory ∧ after.Knows directory
  nodup : (probes.map before.key).Nodup

/-- An advance without probes probes nothing twice. -/
theorem Advances.probesOnce (h : before.Advances after) : ProbesOnce before [] after :=
  ⟨h, by simp, by simp⟩

/-- Two stretches that probe once each probe once together, for the second finds what the first one
probed known. -/
theorem ProbesOnce.trans (h : ProbesOnce before first middle)
    (hsecond : ProbesOnce middle second after) : ProbesOnce before (first ++ second) after := by
  have hkeys : middle.key = before.key := funext (key_of_caseSensitive h.advances.caseSensitive)
  refine ⟨h.advances.trans hsecond.advances, ?_, ?_⟩
  · intro probed hprobed
    rcases List.mem_append.1 hprobed with hprobed | hprobed
    · obtain ⟨directory, hrooted, hpath, hunknown, hknows⟩ := h.manifests probed hprobed
      exact ⟨directory, hrooted, hpath, hunknown,
        hsecond.advances.knows directory hrooted hknows⟩
    · obtain ⟨directory, hrooted, hpath, hunknown, hknows⟩ := hsecond.manifests probed hprobed
      exact ⟨directory, hrooted, hpath,
        fun hbefore => hunknown (h.advances.knows directory hrooted hbefore), hknows⟩
  · have hnodup := hsecond.nodup
    rw [hkeys] at hnodup
    rw [List.map_append, List.nodup_append]
    refine ⟨h.nodup, hnodup, ?_⟩
    -- What was probed first is known in between, what is probed second is not.
    intro key hkey otherKey hother hsame
    obtain ⟨probed, hprobed, rfl⟩ := List.mem_map.1 hkey
    obtain ⟨otherProbed, hotherProbed, rfl⟩ := List.mem_map.1 hother
    obtain ⟨directory, hrooted, rfl, -, hknows⟩ := h.manifests probed hprobed
    obtain ⟨other, hotherRooted, rfl, hunknown, -⟩ := hsecond.manifests otherProbed hotherProbed
    rw [← hkeys] at hsame
    exact hunknown (knows_of_manifestKey_eq hrooted hotherRooted hsame hknows)

/-- An exploration probes each manifest once. -/
theorem Explores.probesOnce (h : Explores view before probes after) :
    ProbesOnce before probes after := by
  induction h with
  | rest cache => exact (Advances.refl cache).probesOnce
  | @look before after probes directory hrooted hunknown _ ih =>
    have hhere : ProbesOnce before [Path.join directory manifestName]
        (before.settleProbed view (Path.join directory manifestName)) := by
      refine ⟨advances_settle before _ hrooted, ?_, by simp⟩
      intro probed hprobed
      exact ⟨directory, hrooted, List.mem_singleton.1 hprobed, hunknown, knows_settle _ hrooted⟩
    exact hhere.trans ih

/-! ## Requests -/

/-- A request that probes is an exploration. -/
theorem Request.explores {request : Request} (h : request.IsRooted cache.caseSensitive)
    (hprobes : request.probes view cache ≠ []) :
    Explores view cache (request.probes view cache) (request.run view cache) := by
  cases request with
  | search directory => exact explores_search view h cache
  | visibleFrom fileName rootDirectory => exact explores_visibleFrom view rootDirectory h cache
  | refresh | delete | forget => exact absurd rfl hprobes

/-- A request that forgets nothing probes each manifest once, and only in unknown directories. -/
theorem Request.probesOnce {request : Request} (view : FileView)
    (h : request.IsRooted cache.caseSensitive) (hkept : ∀ directory, request ≠ .forget directory) :
    ProbesOnce cache (request.probes view cache) (request.run view cache) := by
  by_cases hprobes : request.probes view cache = []
  · rw [hprobes]
    rcases request.advances_or_forget view h with hadvances | ⟨directory, -, hforget⟩
    · exact hadvances.probesOnce
    · exact absurd hforget (hkept directory)
  · exact (request.explores h hprobes).probesOnce

/-- A history that forgets nothing probes each manifest once, and only in directories unknown at its
start. -/
theorem probesOnce_through {history : List (FileView × Request)}
    (hrooted : ∀ call ∈ history, call.2.IsRooted cache.caseSensitive)
    (hkept : ∀ call ∈ history, ∀ directory, call.2 ≠ .forget directory) :
    ProbesOnce cache (probesThrough history cache) (cache.through history) := by
  induction history generalizing cache with
  | nil => exact (Advances.refl cache).probesOnce
  | cons call rest ih =>
    obtain ⟨view, request⟩ := call
    have hhere := request.probesOnce view (hrooted _ List.mem_cons_self)
      (hkept _ List.mem_cons_self)
    apply hhere.trans
    apply ih
    · intro later hlater
      rw [hhere.advances.caseSensitive]
      exact hrooted later (List.mem_cons_of_mem _ hlater)
    · exact fun later hlater => hkept later (List.mem_cons_of_mem _ hlater)

/-- Requests about paths that begin with `/`, with the file system changing in between, of which
none forgets a directory: all together they probe no file twice, whatever its spelling; and what is
probed is always the manifest of a directory, and of one that is not known at that very moment. -/
theorem probed_once {history : List (FileView × Request)}
    (hrooted : ∀ call ∈ history, call.2.IsRooted cache.caseSensitive)
    (hkept : ∀ call ∈ history, ∀ directory, call.2 ≠ .forget directory) :
    ((probesThrough history cache).map cache.key).Nodup ∧
    ∀ earlier view request later, history = earlier ++ (view, request) :: later →
      ∀ front probed rest, request.probes view (cache.through earlier) = front ++ probed :: rest →
        (∃ directory, Path.IsSlashRooted directory ∧
          probed = Path.join directory manifestName) ∧
        ∃ moment, Explores view (cache.through earlier) front moment ∧
          Explores view moment (probed :: rest) (request.run view (cache.through earlier)) ∧
          ∀ directory, Path.IsSlashRooted directory →
            cache.manifestKey directory = cache.key probed → ¬moment.Knows directory := by
  refine ⟨(probesOnce_through hrooted hkept).nodup, ?_⟩
  intro earlier view request later hhistory front probed rest hprobes
  subst hhistory
  have hearlier := probesOnce_through
    (fun call hcall => hrooted call (List.mem_append_left _ hcall))
    (fun call hcall => hkept call (List.mem_append_left _ hcall))
  have hrequest : request.IsRooted (cache.through earlier).caseSensitive := by
    rw [hearlier.advances.caseSensitive]
    exact hrooted (view, request) (by simp)
  have hexplores : Explores view (cache.through earlier)
      (request.probes view (cache.through earlier)) (request.run view (cache.through earlier)) := by
    apply request.explores hrequest
    rw [hprobes]
    simp
  rw [hprobes] at hexplores
  obtain ⟨moment, hfront, hrest⟩ := hexplores.of_append
  have hkeys := key_of_caseSensitive
    (hfront.advances.caseSensitive.trans hearlier.advances.caseSensitive)
  have hlook := hrest
  cases hlook with
  | look here hhere hunknown _ =>
    refine ⟨⟨here, hhere, rfl⟩, moment, hfront, hrest, ?_⟩
    intro directory hdirectory hkey hknows
    have hsame : moment.manifestKey directory = moment.manifestKey here := by
      unfold manifestKey
      rw [hkeys, hkeys]
      exact hkey
    exact hunknown (knows_of_manifestKey_eq hdirectory hhere hsame hknows)

/-- No manifest was found; then one was written, reported and deleted under other letters.  A later
search, in yet other letters, probes the one directory that is left. -/
theorem probed_once_other_letters :
    let empty : MemoryTree := { caseSensitive := false }
    let written := empty.writeFile "/app/package.json" "{}"
    let history : List (FileView × Request) :=
      [(empty.view, .visibleFrom "/App/src/main.ts" none),
        (written.view, .refresh "/APP/Package.json"), (empty.view, .delete "/app/./package.json"),
        (written.view, .search "/app/SRC/lib")]
    probesThrough history { caseSensitive := false } =
        ["/App/src/package.json", "/App/package.json", "/package.json",
          "/app/SRC/lib/package.json"] ∧
      ((probesThrough history { caseSensitive := false }).map
        ({ caseSensitive := false } : ManifestCache).key).Nodup := by
  intro empty written history
  refine ⟨by decide +kernel, (probed_once ?_ ?_).1⟩
  · simp only [history, List.forall_mem_cons, List.not_mem_nil, false_implies, implies_true,
      and_true]
    refine ⟨?_, ⟨"/app", ?_⟩, ⟨"/app", ?_⟩, ?_⟩
    · exact show Path.IsSlashRooted "/App/src/main.ts" by decide
    · exact ⟨by decide, by decide +kernel⟩
    · exact ⟨by decide, by decide +kernel⟩
    · exact show Path.IsSlashRooted "/app/SRC/lib" by decide
  · simp [history]

end AutoImport.ManifestCache
