import AutoImport.Proofs.Path.PackageScope
import AutoImport.Proofs.Path.SlashKeys
import AutoImport.Proofs.Symlinks.LinkIndexes

/-!
# Real paths behind known links

The real path behind a path is found by text: of the known links at the path or above it the longest
one is cut off, and its real directory is put in its place.  Whatever calls were made with paths
that begin with `/`, links and real directories are keys, each link is known once
(`SymlinkTable.KeepsKeys.after`), and so only one of the links above a path can be the longest
(`SymlinkTable.deepest?_eq_some_iff`), in whatever order they are looked at.

A directory other than `/` ends in a segment and a path behind it begins with a slash, but `/` ends
in that slash itself.  So the result is the path of the segments of the real directory and of those
below the link, except where a path lies below the link and just one of link and real directory is
`/` (`SymlinkTable.realPath?_after`).
-/

set_option autoImplicit false

namespace AutoImport

/-! ## Normal forms -/

namespace Chars

/-- Seen from a directory that begins with `/`, every path has a normal form. -/
theorem isNormal_normalize_of_slash (file : Chars) {base : Chars} (h : base.head? = some '/') :
    IsNormal (normalize file base) := by
  obtain ⟨rest, rfl⟩ := List.head?_eq_some_iff.1 h
  have hslashed : slashed ('/' :: rest) = '/' :: slashed rest := rfl
  have hback := not_mem_slashed file
  have hbackBase := not_mem_slashed rest
  unfold normalize join
  dsimp only
  rw [hslashed]
  split
  · rename_i hrooted
    exact isNormal_normalForm (by simpa using hrooted) hback
  · split
    · exact isNormal_normalForm rfl (by simpa using hbackBase)
    · split
      · exact isNormal_normalForm rfl (by simp [hbackBase, hback])
      · exact isNormal_normalForm rfl (by simp [hbackBase, hback])

end Chars

namespace Path

variable {path base : String}

/-- A path that begins with `/` has one key wherever it is seen from. -/
theorem canonical_of_isSlashRooted (h : IsSlashRooted path) (base : String) (caseSensitive : Bool) :
    canonical path base caseSensitive = canonical path "/" caseSensitive := by
  obtain ⟨rest, hrest⟩ := h.toList_eq
  have hjoin : ∀ above : Chars, Chars.join above ('/' :: rest) = Chars.slashed ('/' :: rest) := by
    intro above
    unfold Chars.join
    dsimp only
    rw [show Chars.isRooted (Chars.slashed ('/' :: rest)) = true from rfl, Bool.or_true, if_pos rfl]
  unfold canonical
  rw [hrest, Chars.canonical_eq_folded, Chars.canonical_eq_folded]
  unfold Chars.normalize
  rw [hjoin, hjoin]

/-- A key is normal when it is seen from a path that begins with `/`. -/
theorem isNormal_canonical_of_isSlashRooted (h : IsSlashRooted base) (path : String)
    (caseSensitive : Bool) : IsNormal (canonical path base caseSensitive) := by
  unfold IsNormal canonical
  rw [String.toList_ofList]
  exact Chars.isNormal_folded caseSensitive (Chars.isNormal_normalize_of_slash _ h)

end Path

namespace SymlinkTable

open Chars (IsSegment build)
open AutoImport.Path (IsSlashRooted below)

variable {table place : SymlinkTable} {pathKey link : String} {real : RealDirectory}

/-! ## Tables of keys -/

/-- A normal path that begins with `/`. -/
def IsSlashKey (path : String) : Prop :=
  Path.IsNormal path ∧ IsSlashRooted path

/-- Links and real directories are keys, and every link is known once. -/
structure KeepsKeys (table : SymlinkTable) : Prop where
  base : IsSlashRooted table.base
  once : table.directories.keys.Nodup
  keys : ∀ link real, table.directories.get? link = some real →
    IsSlashKey link ∧ IsSlashKey real.realKey

/-- All paths that a call is made with begin with `/`, and the key of a real directory is its
own. -/
def Call.IsSlashRooted (place : SymlinkTable) : Call → Prop
  | .setDirectory link real =>
    Path.IsSlashRooted link ∧ Path.IsSlashRooted real.real ∧ real.realKey = place.key real.real
  | .setFile link real => Path.IsSlashRooted link ∧ Path.IsSlashRooted real
  | .seed resolutions => ∀ resolution ∈ resolutions, Path.IsSlashRooted resolution.file ∧
      ∀ via, resolution.via = some via → Path.IsSlashRooted via
  | .unseed => True
  | .clear => True

/-- The key of a path that begins with `/` is a key of that kind. -/
theorem isSlashKey_key (table : SymlinkTable) {path : String} (h : IsSlashRooted path) :
    IsSlashKey (table.key path) := by
  unfold key
  rw [Path.canonical_of_isSlashRooted h]
  exact ⟨Path.isNormal_canonical path Path.isNormal_root _, Path.isSlashRooted_canonical h _⟩

/-- A table that has been cleared keeps keys only, having none. -/
theorem keepsKeys_clear (h : IsSlashRooted table.base) : table.clear.KeepsKeys :=
  ⟨h, List.nodup_nil, fun _ _ hfound => by simp [clear, Table.get?, Table.lookupIn] at hfound⟩

/-- Recording a link by its keys keeps keys only. -/
theorem KeepsKeys.setDirectory (h : table.KeepsKeys) {link : String} {real : RealDirectory}
    (hlink : IsSlashRooted link) (hreal : IsSlashKey real.realKey) :
    (table.setDirectory link real).KeepsKeys := by
  unfold SymlinkTable.setDirectory
  dsimp only
  split
  · exact h
  · refine ⟨h.base, Table.nodup_keys_insert h.once _ _, fun other found hfound => ?_⟩
    rw [Table.get?_insert] at hfound
    split at hfound
    · rename_i hother
      rw [← Option.some.inj hfound, ← hother]
      exact ⟨table.isSlashKey_key hlink, hreal⟩
    · exact h.keys other found hfound

/-! ### Guesses -/

/-- Stripping last segments leaves first segments, at least one of each path. -/
theorem strip_spec (table : SymlinkTable) (rs ss : List String) :
    let left := table.strip rs ss
    left.2.1 <:+ rs ∧ left.2.2 <:+ ss ∧ (rs ≠ [] → left.2.1 ≠ []) ∧ (ss ≠ [] → left.2.2 ≠ []) := by
  fun_induction strip table rs ss with
  | case1 r rParent rs s sParent ss _ _ rest hrest ih =>
    obtain ⟨hreal, hlink, hrealNe, hlinkNe⟩ := ih
    rw [hrest] at hreal hlink hrealNe hlinkNe
    exact ⟨hreal.trans (List.suffix_cons r _), hlink.trans (List.suffix_cons s _),
      fun _ => hrealNe (List.cons_ne_nil _ _), fun _ => hlinkNe (List.cons_ne_nil _ _)⟩
  | case2 => exact ⟨List.suffix_refl _, List.suffix_refl _, id, id⟩
  | case3 => exact ⟨List.suffix_refl _, List.suffix_refl _, id, id⟩

/-- A path put together from names of which the first is empty begins with `/`. -/
theorem isSlashRooted_pathOf {segments : List String} (h : segments.head? = some "") :
    IsSlashRooted (pathOf segments) := by
  obtain ⟨rest, rfl⟩ := List.head?_eq_some_iff.1 h
  unfold pathOf IsSlashRooted
  split
  · decide
  · rename_i hne
    obtain ⟨next, others, rfl⟩ := List.exists_cons_of_ne_nil (l := rest) (by simpa using hne)
    rw [String.toList_ofList]
    rfl

/-- First segments of a path that begins with `/` are a path that does. -/
theorem isSlashRooted_pathOf_reverse {path : String} {segments : List String}
    (hpath : IsSlashRooted path) (hsuffix : segments <:+ (Path.segments path).reverse)
    (hne : segments ≠ []) : IsSlashRooted (pathOf segments.reverse) := by
  obtain ⟨rest, hrest⟩ := hpath.toList_eq
  have hhead : (Path.segments path).head? = some "" := by
    unfold Path.segments
    rw [hrest]
    rfl
  have hprefix : segments.reverse <+: Path.segments path := by
    rw [← List.reverse_suffix, List.reverse_reverse]
    exact hsuffix
  apply isSlashRooted_pathOf
  obtain ⟨first, others, hsegments⟩ :=
    List.exists_cons_of_ne_nil (List.reverse_eq_nil_iff.not.2 hne)
  obtain ⟨behind, hbehind⟩ := hprefix
  rw [← hbehind, hsegments] at hhead
  rw [hsegments]
  exact hhead

/-- The normal form of a path that begins with `/` begins with `/`. -/
theorem isSlashRooted_normalize {path : String} (h : IsSlashRooted path) (base : String) :
    IsSlashRooted (Path.normalize path base) := by
  have hcanonical : Path.canonical path base true = Path.normalize path base := rfl
  rw [← hcanonical, Path.canonical_of_isSlashRooted h]
  exact Path.isSlashRooted_canonical h true

/-- What is guessed from paths that begin with `/` are paths that do. -/
theorem isSlashRooted_of_guess {file via : String} (hfile : IsSlashRooted file)
    (hvia : IsSlashRooted via) {guessed : String × String}
    (h : table.guess file via = some guessed) :
    IsSlashRooted guessed.1 ∧ IsSlashRooted guessed.2 := by
  have hsegments : ∀ path, (Path.segments path).reverse ≠ [] := by
    intro path hnil
    unfold Path.segments at hnil
    rw [List.reverse_eq_nil_iff, List.map_eq_nil_iff] at hnil
    exact Text.splitOn_ne_nil '/' _ hnil
  obtain ⟨hreal, hlink, hrealNe, hlinkNe⟩ := table.strip_spec
    (Path.segments (Path.normalize file table.base)).reverse
    (Path.segments (Path.normalize via table.base)).reverse
  unfold guess at h
  dsimp only at h
  split at h
  · rename_i rs ss hstrip
    rw [hstrip] at hreal hlink hrealNe hlinkNe
    rw [← Option.some.inj h]
    exact ⟨isSlashRooted_pathOf_reverse (isSlashRooted_normalize hfile _) hreal
        (hrealNe (hsegments _)),
      isSlashRooted_pathOf_reverse (isSlashRooted_normalize hvia _) hlink (hlinkNe (hsegments _))⟩
  · simp at h

/-! ### Calls -/

/-- Learning from a resolution below `/` keeps keys only. -/
theorem KeepsKeys.learn (h : table.KeepsKeys) {resolution : ResolvedModule}
    (hfile : IsSlashRooted resolution.file)
    (hvia : ∀ via, resolution.via = some via → IsSlashRooted via) :
    (table.learn resolution).KeepsKeys := by
  unfold SymlinkTable.learn
  split
  · exact h
  · rename_i via hsome
    have hset : (table.setFile via resolution.file).KeepsKeys := ⟨h.base, h.once, h.keys⟩
    dsimp only
    split
    · rename_i guessed link hguess
      obtain ⟨hreal, hlink⟩ := isSlashRooted_of_guess hfile (hvia via hsome) hguess
      exact hset.setDirectory hlink (isSlashKey_key _ hreal)
    · exact hset

/-- Learning from resolutions below `/` keeps keys only. -/
theorem KeepsKeys.foldl_learn (h : table.KeepsKeys) {resolutions : List ResolvedModule}
    (hrooted : ∀ resolution ∈ resolutions, IsSlashRooted resolution.file ∧
      ∀ via, resolution.via = some via → IsSlashRooted via) :
    (resolutions.foldl SymlinkTable.learn table).KeepsKeys := by
  induction resolutions generalizing table with
  | nil => exact h
  | cons resolution rest ih =>
    obtain ⟨hfile, hvia⟩ := hrooted resolution List.mem_cons_self
    exact ih (h.learn hfile hvia) fun other hother =>
      hrooted other (List.mem_cons_of_mem resolution hother)

/-- Every call with paths that begin with `/` keeps keys. -/
theorem KeepsKeys.run (h : table.KeepsKeys) {call : Call} (hcall : call.IsSlashRooted place) :
    (call.run table).KeepsKeys := by
  cases call with
  | setDirectory link real =>
    obtain ⟨hlink, hreal, hkey⟩ := hcall
    exact h.setDirectory hlink (hkey ▸ place.isSlashKey_key hreal)
  | setFile link real => exact ⟨h.base, h.once, h.keys⟩
  | seed resolutions =>
    have hstart : KeepsKeys { table with isSeeded := true } := ⟨h.base, h.once, h.keys⟩
    exact hstart.foldl_learn hcall
  | unseed => exact ⟨h.base, h.once, h.keys⟩
  | clear => exact keepsKeys_clear h.base

/-- Calls with paths that begin with `/` keep keys only. -/
theorem KeepsKeys.after (h : table.KeepsKeys) {calls : List Call}
    (hcalls : ∀ call ∈ calls, call.IsSlashRooted place) : (table.after calls).KeepsKeys := by
  induction calls generalizing table with
  | nil => exact h
  | cons call rest ih =>
    exact ih (h.run (hcalls call List.mem_cons_self)) fun other hother =>
      hcalls other (List.mem_cons_of_mem call hother)

/-! ## The deepest link -/

/-- The link is a path or lies above it, and no longer one does. -/
structure IsDeepest (table : SymlinkTable) (pathKey link : String) (real : RealDirectory) :
    Prop where
  known : table.directories.get? link = some real
  above : link ∈ Path.ancestors pathKey
  longest : ∀ other ∈ table.directories.keys, other ∈ Path.ancestors pathKey →
    other.length ≤ link.length

/-- A link that a table knows is a key. -/
theorem KeepsKeys.isSlashKey (h : table.KeepsKeys) (hlink : link ∈ table.directories.keys) :
    IsSlashKey link := by
  obtain ⟨real, hreal⟩ := Option.isSome_iff_exists.1
    ((Table.contains_iff_mem_keys _ _).2 hlink)
  exact (h.keys link real hreal).1

/-- A link contains what it lies above. -/
theorem contains_iff_above (hlink : IsSlashKey link) (hpath : Path.IsNormal pathKey) :
    Path.contains link pathKey = true ↔ link ∈ Path.ancestors pathKey := by
  constructor
  · intro h
    have hrooted : IsSlashRooted pathKey :=
      Chars.head?_of_contains hlink.2 (Chars.IsNormal.isTidy hpath).ne_nil h
    exact (Path.contains_iff_mem_ancestors hlink.1 hlink.2 hpath hrooted).1 h
  · intro h
    have hcontains := Path.contains_of_mem_ancestors hpath h "/" true
    have hsame : ∀ {path : String}, Path.IsNormal path → Path.canonical path "/" true = path :=
      fun hnormal => Path.normalize_of_isNormal "/" hnormal
    rwa [hsame hlink.1, hsame hpath] at hcontains

/-- There is no deepest link exactly when no known link lies above the path. -/
theorem deepest?_eq_none_iff (h : table.KeepsKeys) (hpath : Path.IsNormal pathKey) :
    table.deepest? pathKey = none ↔
      ∀ link ∈ table.directories.keys, link ∉ Path.ancestors pathKey := by
  rw [deepest?_eq_none_iff_contains]
  constructor
  · intro hnone link hlink habove
    obtain ⟨entry, hentry, rfl⟩ := List.mem_map.1 hlink
    exact hnone entry hentry ((contains_iff_above (h.isSlashKey hlink) hpath).2 habove)
  · intro hnone entry hentry hcontains
    have hlink : entry.1 ∈ table.directories.keys := List.mem_map_of_mem hentry
    exact hnone _ hlink ((contains_iff_above (h.isSlashKey hlink) hpath).1 hcontains)

/-- The deepest link is the longest of the known links above the path. -/
theorem isDeepest_of_deepest? (h : table.KeepsKeys) (hpath : Path.IsNormal pathKey)
    (hdeepest : table.deepest? pathKey = some (link, real)) :
    table.IsDeepest pathKey link real := by
  obtain ⟨hentry, hcontains, hlongest⟩ := longest_of_deepest? hdeepest
  refine ⟨(Table.mem_entries_iff h.once).1 hentry,
    (contains_iff_above (h.isSlashKey (List.mem_map_of_mem hentry)) hpath).1 hcontains, ?_⟩
  intro other hother habove
  obtain ⟨entry, hentry, rfl⟩ := List.mem_map.1 hother
  exact hlongest entry hentry ((contains_iff_above (h.isSlashKey hother) hpath).2 habove)

/-- A link above a path, and the path, as segments. -/
theorem exists_below_of_above (hlink : IsSlashKey link) (hpath : Path.IsNormal pathKey)
    (h : link ∈ Path.ancestors pathKey) :
    ∃ front rest, (∀ segment ∈ front, IsSegment segment) ∧ (∀ segment ∈ rest, IsSegment segment) ∧
      link = below front ∧ pathKey = below (front ++ rest) := by
  have hcontains := (contains_iff_above hlink hpath).2 h
  have hrooted : IsSlashRooted pathKey :=
    Chars.head?_of_contains hlink.2 (Chars.IsNormal.isTidy hpath).ne_nil hcontains
  obtain ⟨front, hfront, rfl⟩ := Path.exists_below hlink.1 hlink.2
  obtain ⟨segments, hsegments, rfl⟩ := Path.exists_below hpath hrooted
  obtain ⟨rest, rfl⟩ := (Path.contains_below_iff (fun s hs => (hfront s hs).isPiece)
    fun s hs => (hsegments s hs).isPiece).1 hcontains
  exact ⟨front, rest, hfront, fun s hs => hsegments s (List.mem_append_right _ hs), rfl, rfl⟩

/-- A path below the root is a beginning of those with more segments behind it. -/
theorem below_isPrefix (front rest : List Chars) :
    (below front).toList <+: (below (front ++ rest)).toList := by
  rw [Path.toList_below, Path.toList_below]
  by_cases hfront : front = []
  · subst hfront
    exact List.prefix_append _ _
  · rw [Chars.build_append_trail hfront]
    exact List.prefix_append _ _

/-- Links of one length above one path are one link. -/
theorem eq_of_above_of_length {other : String} (hlink : IsSlashKey link)
    (hotherKey : IsSlashKey other) (hpath : Path.IsNormal pathKey)
    (h : link ∈ Path.ancestors pathKey) (hother : other ∈ Path.ancestors pathKey)
    (hlength : link.length = other.length) : link = other := by
  obtain ⟨front, rest, -, -, rfl, hfirst⟩ := exists_below_of_above hlink hpath h
  obtain ⟨shorter, more, -, -, rfl, hsecond⟩ := exists_below_of_above hotherKey hpath hother
  have hprefix := hfirst ▸ below_isPrefix front rest
  have hprefixOther := hsecond ▸ below_isPrefix shorter more
  rw [← String.length_toList, ← String.length_toList] at hlength
  exact String.toList_inj.1 ((List.prefix_of_prefix_length_le hprefix hprefixOther
    (Nat.le_of_eq hlength)).eq_of_length hlength)

/-- The link that is found is the one link that is longest. -/
theorem deepest?_eq_some_iff (h : table.KeepsKeys) (hpath : Path.IsNormal pathKey) :
    table.deepest? pathKey = some (link, real) ↔ table.IsDeepest pathKey link real := by
  refine ⟨isDeepest_of_deepest? h hpath, fun hdeepest => ?_⟩
  have hmem : ∀ {other found}, table.IsDeepest pathKey other found →
      other ∈ table.directories.keys := fun hother =>
    (Table.contains_iff_mem_keys _ _).1 (Option.isSome_iff_exists.2 ⟨_, hother.known⟩)
  cases hfound : table.deepest? pathKey with
  | none =>
    exact absurd hdeepest.above ((deepest?_eq_none_iff h hpath).1 hfound link (hmem hdeepest))
  | some best =>
    obtain ⟨other, found⟩ := best
    have hother := isDeepest_of_deepest? h hpath hfound
    have hlength : other.length = link.length :=
      Nat.le_antisymm (hdeepest.longest other (hmem hother) hother.above)
        (hother.longest link (hmem hdeepest) hdeepest.above)
    obtain rfl := eq_of_above_of_length (h.keys _ _ hother.known).1
      (h.keys _ _ hdeepest.known).1 hpath hother.above hdeepest.above hlength
    rw [Option.some.inj (hother.known.symm.trans hdeepest.known)]

/-- The order in which links are stored does not matter to the deepest one. -/
theorem deepest?_of_perm (h : table.KeepsKeys) (hpath : Path.IsNormal pathKey)
    {entries : List Entry} (hperm : entries.Perm table.directories.entries) :
    deepest? { table with directories := ⟨entries⟩ } pathKey = table.deepest? pathKey := by
  have hkeys : (Table.keys ⟨entries⟩).Perm table.directories.keys := hperm.map Prod.fst
  have honce : (Table.keys ⟨entries⟩).Nodup := hkeys.nodup_iff.2 h.once
  have hget : ∀ link, Table.get? ⟨entries⟩ link = table.directories.get? link := by
    intro link
    apply Option.ext
    intro real
    rw [← Table.mem_entries_iff honce, ← Table.mem_entries_iff h.once]
    exact hperm.mem_iff
  have hkeeps : KeepsKeys { table with directories := ⟨entries⟩ } :=
    ⟨h.base, honce, fun link real hfound => h.keys link real (hget link ▸ hfound)⟩
  apply Option.ext
  rintro ⟨link, real⟩
  rw [deepest?_eq_some_iff hkeeps hpath, deepest?_eq_some_iff h hpath]
  constructor
  · rintro ⟨hknown, habove, hlongest⟩
    exact ⟨hget link ▸ hknown, habove, fun other hother => hlongest other (hkeys.mem_iff.2 hother)⟩
  · rintro ⟨hknown, habove, hlongest⟩
    exact ⟨(hget link).trans hknown, habove, fun other hother =>
      hlongest other (hkeys.mem_iff.1 hother)⟩

/-! ## The real path -/

/-- The real directory in the place of a link gives the path of all segments, unless just one of the
two is `/` and there is something to put behind it. -/
theorem append_drop_eq_below_iff (front rest target : List Chars) :
    below target ++ .ofList ((below (front ++ rest)).toList.drop (below front).length) =
        below (target ++ rest) ↔ rest = [] ∨ (front = [] ↔ target = []) := by
  rw [← String.toList_inj, String.toList_append, String.toList_ofList, ← String.length_toList]
  simp only [Path.toList_below]
  by_cases hrest : rest = []
  · simp [hrest]
  · have hlength := congrArg List.length (Chars.trail_eq hrest)
    rw [List.length_cons] at hlength
    have hroot : build ['/'] rest = ['/'] ++ Text.joinWith '/' rest := rfl
    by_cases hfront : front = []
    · subst hfront
      have hdrop : (build ['/'] ([] ++ rest)).drop (build ['/'] []).length =
          Text.joinWith '/' rest := rfl
      rw [hdrop]
      by_cases htarget : target = []
      · subst htarget
        simp [hroot, Chars.build_nil]
      · rw [Chars.build_append_trail htarget, List.append_cancel_left_eq]
        simp only [hrest, htarget, iff_false, not_true_eq_false, or_self]
        intro hsame
        rw [← hsame] at hlength
        omega
    · rw [Chars.build_append_trail hfront, List.drop_left]
      by_cases htarget : target = []
      · subst htarget
        rw [Chars.build_nil, List.nil_append, hroot, List.append_cancel_left_eq]
        simp only [hrest, hfront, iff_true, or_self, iff_false]
        intro hsame
        rw [hsame] at hlength
        omega
      · rw [Chars.build_append_trail htarget]
        simp [hfront, htarget]

/-- Take any calls with paths that begin with `/`, and a path that is no known linked file.  There
is a real path behind it if and only if a known link is the path or lies above it.  Let the longest
such link consist of the segments `front`, its real directory of `target`, and let `rest` be the
segments of the path below the link.  Then the real path is that of `target` and `rest` if and only
if there is nothing below the link, or both or none of link and real directory are `/`.  The order
in which the links are stored does not matter. -/
theorem realPath?_after {base : String} {caseSensitive : Bool} {calls : List Call}
    (hbase : IsSlashRooted base)
    (hcalls : ∀ call ∈ calls, call.IsSlashRooted { base, caseSensitive }) {path : String}
    (hfile : (after calls { base, caseSensitive }).file? path = none) :
    let table := after calls { base, caseSensitive }
    let pathKey := table.key path
    (table.realPath? path = none ↔
        ∀ link ∈ table.directories.keys, link ∉ Path.ancestors pathKey) ∧
      (∀ link real, table.IsDeepest pathKey link real →
        ∃ front rest target, (∀ segment ∈ front ++ rest ++ target, IsSegment segment) ∧
          link = below front ∧ pathKey = below (front ++ rest) ∧ real.realKey = below target ∧
            (table.realPath? path = some (below (target ++ rest)) ↔
              rest = [] ∨ (front = [] ↔ target = []))) ∧
      ∀ entries, entries.Perm table.directories.entries →
        realPath? { table with directories := ⟨entries⟩ } path = table.realPath? path := by
  intro table pathKey
  have hstart : KeepsKeys { base, caseSensitive } :=
    @keepsKeys_clear { base, caseSensitive } hbase
  have hkeeps : table.KeepsKeys := hstart.after hcalls
  have hpath : Path.IsNormal pathKey := Path.isNormal_canonical_of_isSlashRooted hkeeps.base path _
  have hreal : ∀ directories : Table String RealDirectory,
      realPath? { table with directories } path =
        (deepest? { table with directories } pathKey).map fun entry =>
          entry.2.realKey ++ .ofList (pathKey.toList.drop entry.1.length) := by
    intro directories
    have hnone : table.files.get? pathKey = none := hfile
    have hkey : key { table with directories } path = pathKey := rfl
    unfold realPath?
    dsimp only
    rw [hkey, hnone]
  refine ⟨?_, ?_, ?_⟩
  · rw [← deepest?_eq_none_iff hkeeps hpath, hreal table.directories, Option.map_eq_none_iff]
  · intro link real hdeepest
    obtain ⟨front, rest, hfront, hrest, hlink, hsegments⟩ :=
      exists_below_of_above (hkeeps.keys _ _ hdeepest.known).1 hpath hdeepest.above
    obtain ⟨htargetNormal, htargetSlash⟩ := (hkeeps.keys _ _ hdeepest.known).2
    obtain ⟨target, htarget, hrealKey⟩ := Path.exists_below htargetNormal htargetSlash
    refine ⟨front, rest, target, ?_, hlink, hsegments, hrealKey, ?_⟩
    · intro segment hsegment
      rcases List.mem_append.1 hsegment with hsegment | hsegment
      · exact (List.mem_append.1 hsegment).elim (hfront segment) (hrest segment)
      · exact htarget segment hsegment
    · rw [hreal table.directories, (deepest?_eq_some_iff hkeeps hpath).2 hdeepest, Option.map_some,
        Option.some.injEq]
      dsimp only
      rw [hrealKey, hlink, hsegments]
      exact append_drop_eq_below_iff front rest target
  · intro entries hperm
    rw [hreal ⟨entries⟩, hreal table.directories, deepest?_of_perm hkeeps hpath hperm]

/-- A package that is linked, with a package inside that is linked too. -/
def nestedLinks : List Call :=
  [.setDirectory "/w/node_modules/a" ⟨"/w/packages/a", "/w/packages/a"⟩,
    .seed [{ file := "/w/packages/b/index.d.ts"
             via := some "/w/node_modules/a/node_modules/b/index.d.ts" }]]

/-- Of the two links above the example path the inner one decides, and it does so too when the table
lists its entries the other way round. -/
theorem realPath?_after_nested :
    let table := after nestedLinks { base := "/w", caseSensitive := true }
    let path := "node_modules/a/node_modules/b/lib/x.d.ts"
    IsSlashRooted "/w" ∧
      (∀ call ∈ nestedLinks, call.IsSlashRooted { base := "/w", caseSensitive := true }) ∧
      table.file? path = none ∧
      table.IsDeepest (table.key path) "/w/node_modules/a/node_modules/b"
        ⟨"/w/packages/b", "/w/packages/b"⟩ ∧
      (∃ rest target, "/w/packages/b" = below target ∧
        table.realPath? path = some (below (target ++ rest))) ∧
      realPath? { table with directories := ⟨table.directories.entries.reverse⟩ } path =
        some "/w/packages/b/lib/x.d.ts" := by
  intro table path
  have hcalls : ∀ call ∈ nestedLinks,
      call.IsSlashRooted { base := "/w", caseSensitive := true } := by
    intro call hcall
    simp only [nestedLinks, List.mem_cons, List.not_mem_nil, or_false] at hcall
    rcases hcall with rfl | rfl
    · exact ⟨by decide, by decide, by decide +kernel⟩
    · intro resolution hresolution
      obtain rfl := List.mem_singleton.1 hresolution
      exact ⟨by decide, fun via hvia => Option.some.inj hvia ▸ by decide⟩
  have hleft : table.directories = ⟨[("/w/node_modules/a", ⟨"/w/packages/a", "/w/packages/a"⟩),
        ("/w/node_modules/a/node_modules/b", ⟨"/w/packages/b", "/w/packages/b"⟩)]⟩ ∧
      table.key path = "/w/node_modules/a/node_modules/b/lib/x.d.ts" ∧
      table.file? path = none ∧ table.realPath? path = some "/w/packages/b/lib/x.d.ts" := by
    decide +kernel
  obtain ⟨hdirectories, hkey, hfile, hanswer⟩ := hleft
  have hdeepest : table.IsDeepest (table.key path) "/w/node_modules/a/node_modules/b"
      ⟨"/w/packages/b", "/w/packages/b"⟩ := by
    rw [hkey]
    refine ⟨?_, by decide +kernel, ?_⟩
    · rw [hdirectories]
      decide
    · rw [hdirectories]
      decide +kernel
  obtain ⟨-, hlongest, horder⟩ := realPath?_after (by decide) hcalls hfile
  obtain ⟨front, rest, target, -, hlink, -, hreal, hiff⟩ := hlongest _ _ hdeepest
  have hroot : below [] = "/" := rfl
  have hfront : front ≠ [] := by
    rintro rfl
    exact absurd (hlink.trans hroot) (by decide)
  have htarget : target ≠ [] := by
    rintro rfl
    exact absurd (hreal.trans hroot) (by decide)
  refine ⟨by decide, hcalls, hfile, hdeepest, ⟨rest, target, hreal, ?_⟩, ?_⟩
  · exact hiff.2 (Or.inr (iff_of_false hfront htarget))
  · rw [horder _ (List.reverse_perm _)]
    exact hanswer

/-- What lies below a link to `/` gets a second slash in front, also where the link was guessed, and
what lies below `/` loses the slash it begins with. -/
theorem realPath?_not_normal :
    let place : SymlinkTable := { base := "/", caseSensitive := true }
    (after [.setDirectory "/s" ⟨"/", "/"⟩] place).realPath? "/s/x" = some "//x" ∧
      (after [.seed [{ file := "/a.d.ts", via := some "/w/node_modules/a/a.d.ts" }]]
        place).realPath? "/w/node_modules/a/b.d.ts" = some "//b.d.ts" ∧
      (after [.setDirectory "/" ⟨"/r", "/r"⟩] place).realPath? "/x" = some "/rx" := by
  decide +kernel

end SymlinkTable

end AutoImport
