import Dream64.Compiler.StableIds

/-!
# The sections of a build

The sections that a build writes have different numbers and depend on sections
that there are, whatever executable the database before keeps.
-/

namespace Dream64.Compiler

open Codec ObjectTree

variable {md5 : Md5} {build : Build} {prior : Option PersistentCompilerDatabase}

/-- The database before was read by the decoder or written by the encoder. -/
def Kept (prior : Option PersistentCompilerDatabase) : Prop :=
  ∀ db ∈ prior, db.Valid ∧ db.Fits

/-- What there is of an executable that is kept. -/
structure Preserved (db : PersistentCompilerDatabase) (manifest : SectionDependency)
    (pages : List SectionDependency) : Prop where
  manifest_mem : manifest ∈ db.sections
  manifest_id : manifest.sectionId = persistentExecutableSection
  range : ∀ id ∈ manifest.sectionDependencies,
    persistentExecutablePageBase ≤ id ∧ id < persistentExecutablePageBase + 1000000
  pages_eq : pages = db.sections.filter fun part =>
    manifest.sectionDependencies.contains part.sectionId

theorem preservedRuntime_eq_some {manifest : SectionDependency} {pages : List SectionDependency}
    (h : preservedRuntime prior = some (manifest, pages)) :
    ∃ db, prior = some db ∧ Preserved db manifest pages := by
  obtain ⟨db, hdb, hrest⟩ := Option.bind_eq_some_iff.1 h
  obtain ⟨found, hfound, hrest⟩ := Option.bind_eq_some_iff.1 hrest
  split at hrest
  · cases hrest
  · rename_i hrange
    dsimp only at hrest
    split at hrest
    · cases hrest
      rw [not_or, Bool.not_eq_true, List.any_eq_false] at hrange
      have hid := List.find?_some hfound
      refine ⟨db, hdb, List.mem_of_find?_eq_some hfound, beq_iff_eq.1 hid, fun id hmem => ?_, rfl⟩
      have hin := hrange.2 id hmem
      rw [decide_eq_true_eq, not_not] at hin
      exact hin
    · cases hrest

/-! ## Numbers -/

theorem map_zipIdx_add {α : Type} (values : List α) (base : Nat) :
    (values.zipIdx.map fun value => base + value.2) =
      (List.range values.length).map (base + ·) := by
  rw [List.range_eq_range', ← List.zipIdx_map_snd 0 values, List.map_map]
  rfl

theorem nodup_map_add (base count : Nat) : ((List.range count).map (base + ·)).Nodup :=
  List.nodup_range.map fun _ _ h => Nat.add_left_cancel h

theorem mem_map_add {base count id : Nat} (h : id ∈ (List.range count).map (base + ·)) :
    base ≤ id ∧ id < base + count := by
  obtain ⟨i, hi, rfl⟩ := List.mem_map.1 h
  have hlt := List.mem_range.1 hi
  omega

theorem inputSections_ids (inputs : List InputDependency) :
    (inputSections inputs).map (·.sectionId) = inputSectionIds inputs := by
  rw [inputSections, List.map_map]
  exact map_zipIdx_add inputs inputSectionBase

theorem linkedSections_ids : (linkedSections md5 build).map (·.sectionId) =
    (List.range (linkedPages build).length).map (linkedPayloadPageBase + ·) := by
  rw [linkedSections, List.map_map]
  exact map_zipIdx_add (linkedPages build) linkedPayloadPageBase

/-- The numbers of the executable's sections: pages first, then the manifest. -/
theorem executableSections_ids (hkept : Kept prior) : ∃ pageIds : List Nat,
    (executableSections prior).map (·.sectionId) = pageIds ++ [persistentExecutableSection] ∧
      pageIds.Nodup ∧
      ∀ id ∈ pageIds, persistentExecutablePageBase ≤ id ∧ id < persistentExecutablePageBase + 1000000 := by
  rw [executableSections]
  cases hpreserved : preservedRuntime prior with
  | none => exact ⟨[], rfl, List.nodup_nil, fun id hid => absurd hid List.not_mem_nil⟩
  | some runtime =>
    obtain ⟨manifest, pages⟩ := runtime
    obtain ⟨db, hdb, hruntime⟩ := preservedRuntime_eq_some hpreserved
    refine ⟨pages.map (·.sectionId), ?_, ?_, fun id hid => ?_⟩
    · show (pages.map _ ++ [manifest]).map _ = _
      rw [List.map_append, List.map_map, List.map_singleton, hruntime.manifest_id]
      rfl
    · rw [hruntime.pages_eq]
      exact (hkept db hdb).1.sectionIds.sublist (List.filter_sublist.map _)
    · obtain ⟨page, hpage, rfl⟩ := List.mem_map.1 hid
      rw [hruntime.pages_eq, List.mem_filter, List.contains_iff_mem] at hpage
      exact hruntime.range _ hpage.2

theorem buildSections_ids : (buildSections md5 build prior).map (·.sectionId) =
    inputSectionIds build.inputs ++
      (List.range (linkedPages build).length).map (linkedPayloadPageBase + ·) ++
      [linkedFrontendSection] ++ (executableSections prior).map (·.sectionId) := by
  rw [buildSections, List.map_append, List.map_append, List.map_append, inputSections_ids,
    linkedSections_ids]
  rfl

theorem length_linkedPages_le :
    (linkedPages build).length ≤ (buildSections md5 build prior).length := by
  simp only [buildSections, linkedSections, List.length_append, List.length_map,
    List.length_zipIdx]
  omega

theorem buildSections_nodup (hkept : Kept prior) (hinputs : build.inputs.length ≤ maxRecords)
    (hsections : (buildSections md5 build prior).length ≤ maxRecords) :
    ((buildSections md5 build prior).map (·.sectionId)).Nodup := by
  obtain ⟨pageIds, hids, hnodup, hrange⟩ := executableSections_ids hkept
  have hpages := Nat.le_trans length_linkedPages_le hsections
  rw [buildSections_ids, hids]
  simp only [maxRecords, inputSectionIds] at hinputs hpages ⊢
  have hinput (id : Nat) (hid : id ∈ (List.range build.inputs.length).map (inputSectionBase + ·)) :
      1000 ≤ id ∧ id < 1001000 := by
    have hbounds := mem_map_add hid
    rw [inputSectionBase] at hbounds
    omega
  have hlinked (id : Nat)
      (hid : id ∈ (List.range (linkedPages build).length).map (linkedPayloadPageBase + ·)) :
      10000000 ≤ id ∧ id < 11000001 := by
    have hbounds := mem_map_add hid
    rw [linkedPayloadPageBase] at hbounds
    omega
  have hpage (id : Nat) (hid : id ∈ pageIds) : 20000000 ≤ id := (hrange id hid).1
  rw [linkedFrontendSection, persistentExecutableSection]
  refine List.nodup_append.2 ⟨List.nodup_append.2 ⟨List.nodup_append.2
    ⟨nodup_map_add _ _, nodup_map_add _ _, ?_⟩, List.nodup_singleton _, ?_⟩,
    List.nodup_append.2 ⟨hnodup, List.nodup_singleton _, ?_⟩, ?_⟩
  · rintro a ha b hb rfl
    have hlow := hinput a ha
    have hhigh := hlinked a hb
    omega
  · rintro a ha b hb rfl
    rw [List.mem_singleton] at hb
    rcases List.mem_append.1 ha with ha | ha
    · have hlow := hinput a ha
      omega
    · have hhigh := hlinked a ha
      omega
  · rintro a ha b hb rfl
    rw [List.mem_singleton] at hb
    have hhigh := hpage a ha
    omega
  · rintro a ha b hb rfl
    rw [List.mem_append, List.mem_append, List.mem_singleton] at ha
    rw [List.mem_append, List.mem_singleton] at hb
    rcases ha with (ha | ha) | ha
    · have hlow := hinput a ha
      rcases hb with hb | hb
      · have hhigh := hpage a hb
        omega
      · omega
    · have hmiddle := hlinked a ha
      rcases hb with hb | hb
      · have hhigh := hpage a hb
        omega
      · omega
    · rcases hb with hb | hb
      · have hhigh := hpage a hb
        omega
      · omega

/-! ## Dependencies -/

theorem mem_executableSections {part : SectionDependency} (h : part ∈ executableSections prior) :
    (∃ runtime ∈ preservedRuntime prior, (∃ page ∈ runtime.2,
        part = { page with sectionDependencies := [linkedFrontendSection] }) ∨ part = runtime.1) ∨
      part = ⟨persistentExecutableSection, [linkedFrontendSection], [], zeroDigest, []⟩ := by
  rw [executableSections] at h
  cases hpreserved : preservedRuntime prior with
  | none =>
    rw [hpreserved] at h
    exact Or.inr (List.mem_singleton.1 h)
  | some runtime =>
    rw [hpreserved] at h
    obtain ⟨manifest, pages⟩ := runtime
    refine Or.inl ⟨(manifest, pages), rfl, ?_⟩
    rcases List.mem_append.1 h with hpage | hmanifest
    · obtain ⟨page, hmem, rfl⟩ := List.mem_map.1 hpage
      exact Or.inl ⟨page, hmem, rfl⟩
    · exact Or.inr (List.mem_singleton.1 hmanifest)

/-- The executable that is kept names no input that the build does not have. -/
def KeepsInputs (build : Build) (prior : Option PersistentCompilerDatabase) : Prop :=
  ∀ runtime ∈ preservedRuntime prior, ∀ part ∈ runtime.1 :: runtime.2,
    ∀ index ∈ part.inputDependencies, index < build.inputs.length

theorem mem_buildSections {part : SectionDependency} (h : part ∈ buildSections md5 build prior) :
    part ∈ inputSections build.inputs ∨ part ∈ linkedSections md5 build ∨
      part = linkedManifest md5 build ∨ part ∈ executableSections prior := by
  simp only [buildSections, List.mem_append, List.mem_singleton] at h
  tauto

theorem mem_inputSections {inputs : List InputDependency} {part : SectionDependency}
    (h : part ∈ inputSections inputs) : part.sectionDependencies = [] ∧ part.payload = [] ∧
      ∃ index < inputs.length, part.inputDependencies = [index] := by
  obtain ⟨⟨input, index⟩, hmem, rfl⟩ := List.mem_map.1 h
  have hlt := (List.mem_zipIdx hmem).2.1
  rw [Nat.zero_add] at hlt
  exact ⟨rfl, rfl, index, hlt, rfl⟩

theorem mem_linkedSections {part : SectionDependency} (h : part ∈ linkedSections md5 build) :
    part.sectionDependencies = inputSectionIds build.inputs ∧ part.inputDependencies = [] ∧
      part.payload.length ≤ maxSectionPayloadBytes := by
  obtain ⟨⟨page, index⟩, hmem, rfl⟩ := List.mem_map.1 h
  refine ⟨rfl, rfl, ?_⟩
  have hpage := List.fst_mem_of_mem_zipIdx hmem
  obtain ⟨segment, -, hchunk⟩ := List.mem_flatMap.1 hpage
  obtain ⟨i, -, rfl⟩ := List.mem_map.1 hchunk
  exact List.length_take_le _ _

theorem buildSections_inputDependencies (hinputs : KeepsInputs build prior) :
    ∀ part ∈ buildSections md5 build prior, ∀ index ∈ part.inputDependencies,
      index < build.inputs.length := by
  intro part hpart index hindex
  rcases mem_buildSections hpart with h | h | rfl | h
  · obtain ⟨-, -, own, hown, heq⟩ := mem_inputSections h
    rw [heq, List.mem_singleton] at hindex
    rwa [hindex]
  · rw [(mem_linkedSections h).2.1] at hindex
    cases hindex
  · cases hindex
  · rcases mem_executableSections h with ⟨runtime, hruntime, ⟨page, hpage, rfl⟩ | rfl⟩ | rfl
    · exact hinputs runtime hruntime page (List.mem_cons_of_mem _ hpage) index hindex
    · exact hinputs runtime hruntime runtime.1 List.mem_cons_self index hindex
    · cases hindex

theorem buildSections_sectionDependencies (hkept : Kept prior) :
    ∀ part ∈ buildSections md5 build prior, ∀ id ∈ part.sectionDependencies,
      id ∈ (buildSections md5 build prior).map (·.sectionId) := by
  intro part hpart id hid
  rw [buildSections_ids]
  simp only [List.mem_append, List.mem_singleton]
  have hlinked (hdeps : part.sectionDependencies = [linkedFrontendSection]) :
      id = linkedFrontendSection := by
    rw [hdeps, List.mem_singleton] at hid
    exact hid
  rcases mem_buildSections hpart with h | h | rfl | h
  · rw [(mem_inputSections h).1] at hid
    cases hid
  · rw [(mem_linkedSections h).1] at hid
    exact Or.inl (Or.inl (Or.inl hid))
  · exact Or.inl (Or.inl (Or.inr hid))
  · rcases mem_executableSections h with ⟨runtime, hruntime, ⟨page, hpage, rfl⟩ | rfl⟩ | rfl
    · exact Or.inl (Or.inr (hlinked rfl))
    · -- the pages of the manifest are those of the database before
      obtain ⟨manifest, pages⟩ := runtime
      obtain ⟨db, hdb, hpreserved⟩ := preservedRuntime_eq_some hruntime
      have hknown := (hkept db hdb).1.sectionDependencies manifest hpreserved.manifest_mem id hid
      obtain ⟨page, hpage, rfl⟩ := List.mem_map.1 hknown
      have hmem : page ∈ pages := by
        rw [hpreserved.pages_eq, List.mem_filter, List.contains_iff_mem]
        exact ⟨hpage, hid⟩
      rw [executableSections, show preservedRuntime prior = some (manifest, pages) from hruntime]
      refine Or.inr (List.mem_map.2 ⟨{ page with sectionDependencies := _ },
        List.mem_append_left _ (List.mem_map_of_mem hmem), rfl⟩)
    · exact Or.inl (Or.inr (hlinked rfl))

theorem buildSections_fits (hkept : Kept prior) (hinputs : build.inputs.length ≤ maxRecords)
    (hsections : (buildSections md5 build prior).length ≤ maxRecords) :
    ∀ part ∈ buildSections md5 build prior, part.Fits := by
  have hone : 1 ≤ maxRecords := by decide
  have hpages := Nat.le_trans length_linkedPages_le hsections
  intro part hpart
  rcases mem_buildSections hpart with h | h | rfl | h
  · obtain ⟨hdeps, hpayload, index, -, hindex⟩ := mem_inputSections h
    exact ⟨hdeps ▸ Nat.zero_le _, hindex ▸ hone, hpayload ▸ Nat.zero_le _⟩
  · obtain ⟨hdeps, hindices, hpayload⟩ := mem_linkedSections h
    refine ⟨?_, hindices ▸ Nat.zero_le _, hpayload⟩
    rw [hdeps, inputSectionIds, List.length_map, List.length_range]
    exact hinputs
  · refine ⟨?_, Nat.zero_le _, Nat.zero_le _⟩
    rw [linkedManifest, List.length_map, List.length_range]
    exact hpages
  · rcases mem_executableSections h with ⟨⟨manifest, pages⟩, hruntime, hcase⟩ | rfl
    · obtain ⟨db, hdb, hpreserved⟩ := preservedRuntime_eq_some hruntime
      have hfits := (hkept db hdb).2.sections
      rcases hcase with ⟨page, hpage, rfl⟩ | rfl
      · have hmem : page ∈ pages := hpage
        rw [hpreserved.pages_eq] at hmem
        have hpageFits := hfits page (List.mem_of_mem_filter hmem)
        exact ⟨hone, hpageFits.inputDependencies, hpageFits.payload⟩
      · exact hfits _ hpreserved.manifest_mem
    · exact ⟨hone, Nat.zero_le _, Nat.zero_le _⟩

end Dream64.Compiler
