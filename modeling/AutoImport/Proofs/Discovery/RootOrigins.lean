import AutoImport.Proofs.Discovery.ContributingPackages
import AutoImport.Proofs.Discovery.ResultBounds
import AutoImport.Proofs.Path.RelativePaths

/-!
# Where roots come from

Every root of a run was offered by a package that contributes to it, and there it comes from one of
the entry points of the package (`Site.Gives`): it is the entry point itself, or, where the package
is reached through a link, what is left of the entry point once the real directory stands in place
of the link.  So a root keeps the place that its entry point has below the package
(`Site.Gives.descends`).
-/

set_option autoImplicit false

namespace AutoImport

/-- The first occurrence of what a text starts with is at its start. -/
theorem Text.replaceFirst_append (part replacement rest : Chars) :
    Text.replaceFirst part replacement (part ++ rest) = replacement ++ rest := by
  have hstrip : Text.stripPrefix? part (part ++ rest) = some rest :=
    List.isPrefixOf?_eq_some_iff_append_eq.2 rfl
  cases htext : part ++ rest with
  | nil =>
    obtain ⟨rfl, rfl⟩ := List.append_eq_nil_iff.1 htext
    simp [Text.replaceFirst]
  | cons c cs =>
    rw [htext] at hstrip
    rw [Text.replaceFirst, hstrip]

namespace Discovery

variable {site : Site} {offer : Offer} {entry root : String}

/-- An entry point of an offered package gives a root. -/
structure Site.Gives (site : Site) (offer : Offer) (entry root : String) : Prop where
  entrypoint : ∃ kind entries,
    (entrypoints site.view kind site.options offer.manifest).val = some entries ∧ entry ∈ entries
  root : site.rootOf? offer.manifest.directory
    (site.linkedDirectory? offer.manifest.directory) entry = some root

/-- Each root of an offer comes from an entry point of its package. -/
theorem exists_gives_of_offer? {kind : EntryKind} {manifest : Manifest}
    (h : site.offer? kind manifest = some offer) (hroot : root ∈ offer.roots) :
    ∃ entry, site.Gives offer entry root := by
  obtain ⟨roots, hroots, rfl⟩ := Option.map_eq_some_iff.1 h
  unfold Site.packageRoots? at hroots
  cases hentries : (entrypoints site.view kind site.options manifest).val with
  | none => simp [hentries] at hroots
  | some entries =>
    rw [hentries] at hroots
    dsimp only at hroots
    split at hroots
    · simp at hroots
    · rw [← Option.some.inj hroots] at hroot
      obtain ⟨entry, hentry, hgives⟩ := List.mem_filterMap.1 hroot
      exact ⟨entry, ⟨kind, entries, hentries, hentry⟩, hgives⟩

/-- A package that is not reached through a link gives its entry points themselves. -/
theorem Site.Gives.eq_entry (h : site.Gives offer entry root)
    (hreal : site.linkedDirectory? offer.manifest.directory = none) : root = entry := by
  have hroot := h.root
  unfold Site.rootOf? at hroot
  rw [hreal] at hroot
  dsimp only at hroot
  rw [Option.ite_none_left_eq_some, Option.some.injEq] at hroot
  exact hroot.2.symm

/-- A package that is reached through a link gives what it has behind the real directory. -/
theorem Site.Gives.toList_eq {real : String} (h : site.Gives offer entry root)
    (hreal : site.linkedDirectory? offer.manifest.directory = some real) {behind : Chars}
    (hentry : entry.toList = offer.manifest.directory.toList ++ behind) :
    root.toList = real.toList ++ behind := by
  have hroot := h.root
  unfold Site.rootOf? at hroot
  rw [hreal] at hroot
  dsimp only at hroot
  rw [Option.ite_none_left_eq_some, Option.some.injEq] at hroot
  rw [← hroot.2, String.toList_ofList, hentry, Text.replaceFirst_append]

/-- A root lies below the real directory of its package where its entry point lies below the
directory in which the package was found. -/
theorem Site.Gives.descends (h : site.Gives offer entry root)
    (hentry : Path.Descends offer.manifest.directory entry) :
    Path.Descends
      ((site.linkedDirectory? offer.manifest.directory).getD offer.manifest.directory) root := by
  obtain ⟨more, hmore, hpath⟩ := hentry
  refine ⟨more, hmore, ?_⟩
  cases hreal : site.linkedDirectory? offer.manifest.directory with
  | none =>
    rw [h.eq_entry hreal]
    exact hpath
  | some real => exact h.toList_eq hreal hpath

/-! ## Runs -/

/-- A root that a package adds is one of those that it offers, and then the package counts. -/
theorem mem_roots_takePackage {run : Run}
    (hroot : root ∈ (run.takePackage site offer.manifest offer.roots).roots)
    (hkeys : run.rootKeys = run.roots.map site.key)
    (hdistinct : (run.roots.map site.key).Nodup) :
    root ∈ run.roots ∨
      run.added < (run.takePackage site offer.manifest offer.roots).added ∧
        root ∈ offer.roots := by
  obtain ⟨new, symlinks, hsublist, -, ⟨-, heq⟩ | ⟨-, heq⟩⟩ :=
    takePackage_eq site offer.manifest offer.roots hkeys hdistinct
  · rw [heq] at hroot
    exact Or.inl hroot
  · rw [heq] at hroot ⊢
    rcases List.mem_append.1 hroot with hold | hnew
    · exact Or.inl hold
    · exact Or.inr ⟨Nat.lt_succ_self _, hsublist.subset hnew⟩

/-- A root that a dependency adds is one of those that its package offers, and then the dependency
counts. -/
theorem mem_roots_addDependency {run : Run} (h : run.Balanced site) {packageName : String}
    (hroot : root ∈ (run.addDependency site packageName).val.roots) :
    root ∈ run.roots ∨
      run.added < (run.addDependency site packageName).val.added ∧
        ∃ offer, (site.settle packageName run.lookup).1 = some offer ∧ root ∈ offer.roots := by
  rw [addDependency_eq_take] at hroot ⊢
  cases hsettle : (site.settle packageName run.lookup).1 with
  | none =>
    rw [hsettle] at hroot
    exact Or.inl hroot
  | some offer =>
    rw [hsettle] at hroot
    rcases mem_roots_takePackage hroot h.rootKeys h.distinct with hold | ⟨hadded, hoffered⟩
    · exact Or.inl hold
    · exact Or.inr ⟨hadded, offer, rfl, hoffered⟩

/-- Every root of a run that is not dropped was there before, or an entry point of a contributing
package gives it. -/
theorem mem_roots_addDependencies {inclusion : Inclusion} {names : List String} {run final : Run}
    (h : run.Balanced site)
    (hfinal : (run.addDependencies site inclusion names).val.1 = some final)
    (hroot : root ∈ final.roots) :
    root ∈ run.roots ∨
      ∃ offer ∈ contributions site names run, ∃ entry, site.Gives offer entry root := by
  induction names generalizing run with
  | nil =>
    obtain rfl : run = final := Option.some.inj hfinal
    exact Or.inl hroot
  | cons name rest ih =>
    rw [Run.addDependencies, Probed.val_bind] at hfinal
    split at hfinal
    · simp at hfinal
    · rw [contributions]
      rcases ih (h.addDependency name).1 hfinal with hnext | ⟨offer, hoffer, hgives⟩
      · rcases mem_roots_addDependency h hnext with hold | ⟨hadded, offer, hsettle, hoffered⟩
        · exact Or.inl hold
        · obtain ⟨kind, manifest, hoffer⟩ := exists_offer?_of_settle hsettle
          refine Or.inr ⟨offer, List.mem_append_left _ ?_, exists_gives_of_offer? hoffer hoffered⟩
          rw [if_pos hadded]
          exact Option.mem_toList.2 hsettle
      · exact Or.inr ⟨offer, List.mem_append_right _ hoffer, hgives⟩

/-- Every root that a run over the dependencies of manifests finds is given by an entry point of
a package that contributes to it. -/
theorem exists_gives_of_discover {inclusion : Inclusion} {manifests : List Manifest}
    {caches : Caches} (h : root ∈ (discover inclusion site manifests caches).val.1.roots) :
    ∃ offer ∈ contributions site (dependencyNames manifests) { toCaches := caches }, ∃ entry,
      site.Gives offer entry root := by
  rw [discover_val] at h
  dsimp only at h
  cases hfinal : (Run.addDependencies site inclusion (dependencyNames manifests)
      { toCaches := caches }).val.1 with
  | none => simp [hfinal] at h
  | some final =>
    rw [hfinal] at h
    rcases mem_roots_addDependencies (balanced_start site caches) hfinal h with hstart | hgiven
    · simp at hstart
    · exact hgiven

end Discovery

/-! ## Projects -/

namespace Project

variable {project : Project} {services : Services} {inclusion : Inclusion}
  {options : CompilerOptions} {cache : ManifestCache} {root : String}

/-- Every root that a discovery finds is given by an entry point of a package that contributes to
it. -/
theorem exists_contribution_of_discover
    (h : root ∈ (project.discover services inclusion options cache).val.1.roots) :
    ∃ program, project.program = some program ∧
      ∃ offer ∈ project.contributions services options cache, ∃ entry,
        (project.site services options program).Gives offer entry root := by
  cases hprogram : project.program with
  | none => simp [Discovery.discover_nothing (Or.inr hprogram)] at h
  | some program =>
    refine ⟨program, rfl, ?_⟩
    cases hoff : inclusion.isOff with
    | true => simp [Discovery.discover_nothing (Or.inl hoff)] at h
    | false =>
      rw [Discovery.discover_project hprogram hoff] at h
      unfold contributions
      rw [hprogram]
      exact Discovery.exists_gives_of_discover h

end Project

end AutoImport
