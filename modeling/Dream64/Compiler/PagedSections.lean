import Dream64.Compiler.DatabaseCodec
import Dream64.Compiler.Persistent

/-!
# Paged sections

`replace_paged_section` cuts a payload into pages, which are sections of their
own with identities from a base on, and puts a section without a payload over
them; `section_payload` joins the pages again. The replacement is checked after
it is made: one that is refused stays in the database. The codec of the
database is lossless, and the replacement does what it is for exactly if it is
accepted for a payload that is not empty, or changes nothing
(`database_lossless`).
-/

namespace Dream64.Compiler

open Codec

/-- The arguments of `replace_paged_section`. -/
structure PagedSection where
  sectionId : Nat
  pageIdBase : Nat
  contentDigest : Digest
  payload : Bytes
  pageDependencies : List Nat

/-- The identities that are kept for the pages of one section. -/
def pageRange : Nat := 1000000

section

variable (md5 : Md5)

def digestPage (bytes : Bytes) : Digest :=
  ⟨md5 bytes ++ md5 (md5 bytes), by rw [List.length_append, (md5 _).2, (md5 _).2]⟩

namespace PagedSection

variable (paged : PagedSection)

def pageCount : Nat :=
  (paged.payload.length + maxSectionPayloadBytes - 1) / maxSectionPayloadBytes

/-- The section is another one than that which is replaced, and none of its pages. -/
def keeps (part : SectionDependency) : Bool :=
  decide (part.sectionId ≠ paged.sectionId) &&
    !(decide (paged.pageIdBase ≤ part.sectionId) &&
      decide (part.sectionId < paged.pageIdBase + pageRange))

def pages : List SectionDependency :=
  (chunks maxSectionPayloadBytes paged.payload).zipIdx.map fun page =>
    ⟨paged.pageIdBase + page.2, paged.pageDependencies, [], digestPage md5 page.1, page.1⟩

def pageIds : List Nat := (List.range paged.pageCount).map (paged.pageIdBase + ·)

def manifest : SectionDependency :=
  ⟨paged.sectionId, paged.pageIds, [], paged.contentDigest, []⟩

/-- `sort_by_key`, which is stable. -/
def sortSections (sections : List SectionDependency) : List SectionDependency :=
  sections.insertionSort fun a b => a.sectionId ≤ b.sectionId

def replaced (db : PersistentCompilerDatabase) : List SectionDependency :=
  sortSections (db.sections.filter paged.keeps ++ paged.pages md5 ++ [paged.manifest])

end PagedSection

namespace PersistentCompilerDatabase

variable (db : PersistentCompilerDatabase)

/-- The entry of the map from identities to sections; the last one counts. -/
def byId (id : Nat) : Option SectionDependency :=
  db.sections.reverse.find? fun part => part.sectionId == id

/-- A page with a payload that its digest is of. -/
def page (id : Nat) : Option SectionDependency :=
  (db.byId id).bind fun page =>
    if page.payload ≠ [] ∧ page.contentDigest.1.take 16 = md5 page.payload then some page else none

def sectionPayload (sectionId : Nat) : Option Bytes :=
  (db.sections.find? fun part => part.sectionId == sectionId).bind fun part =>
    if part.payload ≠ [] then some part.payload
    else
      (part.sectionDependencies.mapM (db.page md5)).bind fun pages =>
        if pages = [] then none
        else if maxU64 < (pages.map (·.payload.length)).sum then none
        else some (pages.flatMap (·.payload))

/-- The database afterwards, and what is returned. -/
def replacePagedSection (paged : PagedSection) :
    PersistentCompilerDatabase × Except DatabaseError Nat :=
  if maxU64 < paged.pageIdBase + pageRange then (db, .error (.limit "section page IDs"))
  else
    let after := { db with sections := paged.replaced md5 db }
    (after, (validate after).map fun _ => paged.pageCount)

end PersistentCompilerDatabase

end

/-! ## Pages -/

theorem flatten_chunks {size : Nat} (hsize : 0 < size) (bytes : Bytes) :
    (chunks size bytes).flatten = bytes := by
  have htake (n : Nat) : ((List.range n).map fun index =>
      (bytes.drop (index * size)).take size).flatten = bytes.take (n * size) := by
    induction n with
    | zero => rw [List.range_zero, List.map_nil, List.flatten_nil, Nat.zero_mul, List.take_zero]
    | succ n ih =>
      rw [List.range_succ, List.map_append, List.flatten_append, ih, Nat.succ_mul, List.take_add]
      simp
  rw [chunks, htake, List.take_of_length_le]
  have hdiv := Nat.div_add_mod (bytes.length + size - 1) size
  have hmod := Nat.mod_lt (bytes.length + size - 1) hsize
  have hcomm := Nat.mul_comm size ((bytes.length + size - 1) / size)
  omega

theorem ne_nil_of_mem_chunks {size : Nat} (hsize : 0 < size) {bytes chunk : Bytes}
    (h : chunk ∈ chunks size bytes) : chunk ≠ [] := by
  obtain ⟨index, hindex, rfl⟩ := List.mem_map.1 h
  have hlt := List.mem_range.1 hindex
  have hle := (Nat.le_div_iff_mul_le hsize).1 (Nat.succ_le_of_lt hlt)
  rw [Nat.succ_mul] at hle
  rw [← List.length_pos_iff, List.length_take, List.length_drop]
  omega

theorem length_chunks (size : Nat) (bytes : Bytes) :
    (chunks size bytes).length = (bytes.length + size - 1) / size := by
  rw [chunks, List.length_map, List.length_range]

theorem maxSectionPayloadBytes_pos : 0 < maxSectionPayloadBytes := by decide

namespace PagedSection

variable {md5 : Md5} {paged : PagedSection} {db : PersistentCompilerDatabase}
  {part : SectionDependency}

theorem map_sectionId_pages (md5 : Md5) : (paged.pages md5).map (·.sectionId) = paged.pageIds := by
  rw [pages, pageIds, List.map_map, pageCount, ← length_chunks]
  apply List.ext_getElem
  · simp
  · intro i h1 h2
    simp

theorem mem_pageIds {id : Nat} :
    id ∈ paged.pageIds ↔ paged.pageIdBase ≤ id ∧ id < paged.pageIdBase + paged.pageCount := by
  rw [pageIds, List.mem_map]
  constructor
  · rintro ⟨index, hindex, rfl⟩
    have := List.mem_range.1 hindex
    omega
  · rintro ⟨hlow, hhigh⟩
    exact ⟨id - paged.pageIdBase, List.mem_range.2 (by omega), by omega⟩

theorem nodup_pageIds : paged.pageIds.Nodup :=
  List.nodup_range.map fun a b (h : paged.pageIdBase + a = paged.pageIdBase + b) => by omega

theorem flatMap_payload_pages (md5 : Md5) : (paged.pages md5).flatMap (·.payload) = paged.payload := by
  have hmap : (paged.pages md5).map (·.payload) = chunks maxSectionPayloadBytes paged.payload := by
    rw [pages, List.map_map]
    exact List.zipIdx_map_fst _ _
  rw [List.flatMap_def, hmap, flatten_chunks maxSectionPayloadBytes_pos]

/-- What a page is like. -/
theorem of_mem_pages (h : part ∈ paged.pages md5) :
    part.payload ≠ [] ∧ part.contentDigest.1.take 16 = md5 part.payload ∧
      part.payload.length ≤ maxSectionPayloadBytes ∧ part.inputDependencies = [] ∧
        part.sectionDependencies = paged.pageDependencies := by
  obtain ⟨⟨chunk, index⟩, hchunk, rfl⟩ := List.mem_map.1 h
  have hmem : chunk ∈ chunks maxSectionPayloadBytes paged.payload :=
    List.fst_mem_of_mem_zipIdx hchunk
  refine ⟨ne_nil_of_mem_chunks maxSectionPayloadBytes_pos hmem, ?_, ?_, rfl, rfl⟩
  · show (md5 chunk ++ md5 (md5 chunk) : Bytes).take 16 = _
    rw [List.take_append_of_le_length (by rw [(md5 chunk).2]), List.take_of_length_le]
    rw [(md5 chunk).2]
  · obtain ⟨index, -, rfl⟩ := List.mem_map.1 hmem
    exact List.length_take_le _ _

theorem perm_replaced : (paged.replaced md5 db).Perm
    (db.sections.filter paged.keeps ++ paged.pages md5 ++ [paged.manifest]) :=
  List.perm_insertionSort _ _

theorem mem_replaced : part ∈ paged.replaced md5 db ↔
    part ∈ db.sections.filter paged.keeps ∨ part ∈ paged.pages md5 ∨ part = paged.manifest := by
  rw [perm_replaced.mem_iff, List.mem_append, List.mem_append, List.mem_singleton, or_assoc]

theorem keeps_iff : paged.keeps part = true ↔ part.sectionId ≠ paged.sectionId ∧
    ¬ (paged.pageIdBase ≤ part.sectionId ∧ part.sectionId < paged.pageIdBase + pageRange) := by
  simp only [keeps, Bool.and_eq_true, Bool.not_eq_true', Bool.and_eq_false_iff, decide_eq_true_eq,
    decide_eq_false_iff_not, not_and_or]

/-! ## What is accepted -/

/-- The identity of a section that is there afterwards. -/
def Known (paged : PagedSection) (db : PersistentCompilerDatabase) (id : Nat) : Prop :=
  id ∈ (db.sections.filter paged.keeps).map (·.sectionId) ∨ id ∈ paged.pageIds ∨
    id = paged.sectionId

/-- The replacement passes the check that follows it. -/
structure Accepted (paged : PagedSection) (db : PersistentCompilerDatabase) : Prop where
  inputs : db.inputs.length ≤ maxRecords
  stableIds : db.stableIds.length ≤ maxRecords
  sections : (db.sections.filter paged.keeps).length + paged.pageCount + 1 ≤ maxRecords
  identities : (db.inputs.map (·.identity)).Nodup
  names : (db.stableIds.map fun entry => (entry.nameSpace, entry.name)).Nodup
  numbers : (db.stableIds.map fun entry => (entry.nameSpace, entry.id)).Nodup
  kept : ((db.sections.filter paged.keeps).map (·.sectionId)).Nodup
  apart : paged.sectionId ∉ paged.pageIds
  inputDependencies : ∀ part ∈ db.sections, paged.keeps part = true →
    ∀ index ∈ part.inputDependencies, index < db.inputs.length
  sectionDependencies : ∀ part ∈ db.sections, paged.keeps part = true →
    ∀ id ∈ part.sectionDependencies, paged.Known db id
  pageDependencies : 0 < paged.pageCount → ∀ id ∈ paged.pageDependencies, paged.Known db id

theorem length_replaced : (paged.replaced md5 db).length =
    (db.sections.filter paged.keeps).length + paged.pageCount + 1 := by
  rw [perm_replaced.length_eq, List.length_append, List.length_append, pages, List.length_map,
    List.length_zipIdx, length_chunks, List.length_singleton, pageCount]

theorem mem_ids_replaced {id : Nat} :
    id ∈ (paged.replaced md5 db).map (·.sectionId) ↔ paged.Known db id := by
  rw [(perm_replaced.map _).mem_iff, List.map_append, List.map_append, map_sectionId_pages,
    List.mem_append, List.mem_append, List.map_singleton, List.mem_singleton, or_assoc]
  rfl

theorem nodup_ids_replaced (hcount : paged.pageCount ≤ pageRange) :
    ((paged.replaced md5 db).map (·.sectionId)).Nodup ↔
      ((db.sections.filter paged.keeps).map (·.sectionId)).Nodup ∧
        paged.sectionId ∉ paged.pageIds := by
  have hkept : ∀ id ∈ (db.sections.filter paged.keeps).map (·.sectionId),
      id ≠ paged.sectionId ∧ id ∉ paged.pageIds := by
    intro id hid
    obtain ⟨part, hpart, rfl⟩ := List.mem_map.1 hid
    have hkeeps := keeps_iff.1 (List.mem_filter.1 hpart).2
    refine ⟨hkeeps.1, fun hpage => hkeeps.2 ?_⟩
    have := mem_pageIds.1 hpage
    exact ⟨this.1, by omega⟩
  rw [(perm_replaced.map _).nodup_iff, List.map_append, List.map_append, map_sectionId_pages,
    List.map_singleton, List.nodup_append, List.nodup_append]
  constructor
  · rintro ⟨⟨hnodup, -, -⟩, -, hdisjoint⟩
    refine ⟨hnodup, fun hpage => ?_⟩
    exact hdisjoint _ (List.mem_append_right _ hpage) _ (List.mem_singleton_self _) rfl
  · rintro ⟨hnodup, hapart⟩
    refine ⟨⟨hnodup, nodup_pageIds, ?_⟩, List.nodup_singleton _, ?_⟩
    · rintro id hid other hother rfl
      exact (hkept id hid).2 hother
    · intro id hid other hother heq
      rw [List.mem_singleton] at hother
      rw [hother] at heq
      change id = paged.sectionId at heq
      rcases List.mem_append.1 hid with hid | hid
      · exact (hkept id hid).1 heq
      · rw [heq] at hid
        exact hapart hid

theorem valid_replaced (md5 : Md5) :
    ({ db with sections := paged.replaced md5 db } : PersistentCompilerDatabase).Valid ↔
      paged.Accepted db := by
  have hrange : maxRecords ≤ pageRange := by decide
  constructor
  · intro h
    have hsections : (paged.replaced md5 db).length ≤ maxRecords := h.counted.sections
    rw [length_replaced] at hsections
    have hids := (nodup_ids_replaced (by omega)).1 h.sectionIds
    refine ⟨h.counted.inputs, h.counted.stableIds, hsections, h.identities, h.names, h.numbers,
      hids.1, hids.2, fun part hpart hkeeps => ?_, fun part hpart hkeeps id hid => ?_,
      fun hpos id hid => ?_⟩
    · exact h.inputDependencies part (mem_replaced.2 (.inl (List.mem_filter.2 ⟨hpart, hkeeps⟩)))
    · exact mem_ids_replaced.1 (h.sectionDependencies part
        (mem_replaced.2 (.inl (List.mem_filter.2 ⟨hpart, hkeeps⟩))) id hid)
    · have hlength : 0 < (paged.pages md5).length := by
        rw [pages, List.length_map, List.length_zipIdx, length_chunks]
        exact hpos
      have hmem := List.getElem_mem hlength
      refine mem_ids_replaced.1 (h.sectionDependencies _ (mem_replaced.2 (.inr (.inl hmem))) id ?_)
      rw [(of_mem_pages hmem).2.2.2.2]
      exact hid
  · intro h
    have hcount : paged.pageCount ≤ pageRange := by
      have := h.sections
      omega
    refine ⟨⟨h.inputs, h.stableIds, ?_⟩, h.identities, h.names, h.numbers,
      (nodup_ids_replaced hcount).2 ⟨h.kept, h.apart⟩, fun part hpart => ?_,
      fun part hpart id hid => mem_ids_replaced.2 ?_⟩
    · show (paged.replaced md5 db).length ≤ maxRecords
      rw [length_replaced]
      exact h.sections
    · rcases mem_replaced.1 hpart with hkept | hpage | rfl
      · have := List.mem_filter.1 hkept
        exact h.inputDependencies part this.1 this.2
      · rw [(of_mem_pages hpage).2.2.2.1]
        exact List.forall_mem_nil _
      · exact List.forall_mem_nil _
    · rcases mem_replaced.1 hpart with hkept | hpage | rfl
      · have := List.mem_filter.1 hkept
        exact h.sectionDependencies part this.1 this.2 id hid
      · rw [(of_mem_pages hpage).2.2.2.2] at hid
        refine h.pageDependencies ?_ id hid
        have hlength := List.length_pos_of_mem hpage
        rwa [pages, List.length_map, List.length_zipIdx, length_chunks] at hlength
      · exact .inr (.inl hid)

end PagedSection

/-! ## What is read back -/

section

variable {md5 : Md5} {db : PersistentCompilerDatabase} {part : SectionDependency}

open PersistentCompilerDatabase

theorem find_of_mem {sections : List SectionDependency} (hids : (sections.map (·.sectionId)).Nodup)
    (hmem : part ∈ sections) :
    (sections.find? fun other => other.sectionId == part.sectionId) = some part := by
  cases hfind : sections.find? fun other => other.sectionId == part.sectionId with
  | none => exact absurd (beq_self_eq_true _) (List.find?_eq_none.1 hfind part hmem)
  | some other =>
    have hid : other.sectionId = part.sectionId := by simpa using List.find?_some hfind
    rw [List.inj_on_of_nodup_map hids (List.mem_of_find?_eq_some hfind) hmem hid]

theorem byId_of_mem (hids : (db.sections.map (·.sectionId)).Nodup) (hmem : part ∈ db.sections) :
    db.byId part.sectionId = some part := by
  have hreverse : (db.sections.reverse.map (·.sectionId)).Nodup := by
    rw [List.map_reverse]
    exact List.nodup_reverse.2 hids
  exact find_of_mem hreverse (List.mem_reverse.2 hmem)

theorem mapM_page (pages : List SectionDependency) (hids : (db.sections.map (·.sectionId)).Nodup)
    (h : ∀ page ∈ pages, page ∈ db.sections ∧ page.payload ≠ [] ∧
      page.contentDigest.1.take 16 = md5 page.payload) :
    (pages.map (·.sectionId)).mapM (db.page md5) = some pages := by
  induction pages with
  | nil => rfl
  | cons page pages ih =>
    obtain ⟨hmem, hpayload, hdigest⟩ := h page List.mem_cons_self
    have hpage : db.page md5 page.sectionId = some page := by
      rw [PersistentCompilerDatabase.page, byId_of_mem hids hmem, Option.bind_some,
        if_pos ⟨hpayload, hdigest⟩]
    rw [List.map_cons, List.mapM_cons, hpage, ih fun other hother =>
      h other (List.mem_cons_of_mem _ hother)]
    rfl

theorem sum_le_of_forall_le {pages : List SectionDependency} {bound : Nat}
    (h : ∀ page ∈ pages, page.payload.length ≤ bound) :
    (pages.map (·.payload.length)).sum ≤ pages.length * bound := by
  induction pages with
  | nil => exact Nat.zero_le _
  | cons page pages ih =>
    have hpage := h page List.mem_cons_self
    have hpages := ih fun other hother => h other (List.mem_cons_of_mem _ hother)
    rw [List.map_cons, List.sum_cons, List.length_cons, Nat.succ_mul]
    omega

/-- The pages of an accepted replacement are joined again; without pages there is nothing. -/
theorem sectionPayload_replaced (md5 : Md5) {paged : PagedSection} (h : paged.Accepted db) :
    ({ db with sections := paged.replaced md5 db } :
      PersistentCompilerDatabase).sectionPayload md5 paged.sectionId =
        if paged.payload = [] then none else some paged.payload := by
  have hvalid := (PagedSection.valid_replaced md5).2 h
  have hmanifest : paged.manifest ∈ paged.replaced md5 db :=
    PagedSection.mem_replaced.2 (.inr (.inr rfl))
  have hfind := find_of_mem hvalid.sectionIds hmanifest
  have hpages := mapM_page (paged.pages md5) hvalid.sectionIds
    fun page hpage => ⟨PagedSection.mem_replaced.2 (.inr (.inl hpage)),
      (PagedSection.of_mem_pages hpage).1, (PagedSection.of_mem_pages hpage).2.1⟩
  rw [PagedSection.map_sectionId_pages] at hpages
  have hlength : (paged.pages md5).length = paged.pageCount := by
    rw [PagedSection.pages, List.length_map, List.length_zipIdx, length_chunks,
      PagedSection.pageCount]
  have hpage : ∀ page ∈ paged.pages md5, page.payload.length ≤ maxSectionPayloadBytes :=
    fun page hpage => (PagedSection.of_mem_pages hpage).2.2.1
  have hsum := sum_le_of_forall_le hpage
  have hsections := h.sections
  have hbound : ¬ maxU64 < ((paged.pages md5).map (·.payload.length)).sum := by
    have hmul : (paged.pages md5).length * maxSectionPayloadBytes ≤
        maxRecords * maxSectionPayloadBytes := Nat.mul_le_mul_right _ (by omega)
    have hmax : maxRecords * maxSectionPayloadBytes < maxU64 := by decide
    omega
  show ((paged.replaced md5 db).find? fun part => part.sectionId == paged.sectionId).bind _ = _
  rw [show ((paged.replaced md5 db).find? fun part => part.sectionId == paged.sectionId) =
    some paged.manifest from hfind, Option.bind_some, if_neg (by simp [PagedSection.manifest])]
  show Option.bind (paged.pageIds.mapM _) _ = _
  rw [hpages, Option.bind_some, if_neg hbound, PagedSection.flatMap_payload_pages]
  have hempty : paged.pages md5 = [] ↔ paged.payload = [] := by
    constructor
    · intro hnil
      rw [← PagedSection.flatMap_payload_pages md5, hnil, List.flatMap_nil]
    · intro hnil
      have hzero : paged.pageCount = 0 := by
        rw [PagedSection.pageCount, hnil]
        decide
      rw [← List.length_eq_zero_iff, hlength, hzero]
  simp only [hempty]

/-! ## The codec and the replacement -/

/-- A replacement that is accepted is read back and leaves the other sections; one that is refused
leaves the database. -/
structure Replaces (md5 : Md5) (db : PersistentCompilerDatabase) (paged : PagedSection) : Prop where
  payload : ∀ count, (db.replacePagedSection md5 paged).2 = .ok count →
    (db.replacePagedSection md5 paged).1.sectionPayload md5 paged.sectionId = some paged.payload
  others : ∀ count, (db.replacePagedSection md5 paged).2 = .ok count →
    ∀ part, paged.keeps part = true →
      (part ∈ (db.replacePagedSection md5 paged).1.sections ↔ part ∈ db.sections)
  unchanged : ∀ error, (db.replacePagedSection md5 paged).2 = .error error →
    (db.replacePagedSection md5 paged).1 = db

variable {paged : PagedSection}

theorem replacePagedSection_of_range (md5 : Md5) (db : PersistentCompilerDatabase)
    (h : maxU64 < paged.pageIdBase + pageRange) :
    db.replacePagedSection md5 paged = (db, .error (.limit "section page IDs")) := by
  rw [replacePagedSection, if_pos h]

theorem replacePagedSection_of_not_range (md5 : Md5) (db : PersistentCompilerDatabase)
    (h : ¬ maxU64 < paged.pageIdBase + pageRange) :
    db.replacePagedSection md5 paged = ({ db with sections := paged.replaced md5 db },
      (validate { db with sections := paged.replaced md5 db }).map fun _ => paged.pageCount) := by
  rw [replacePagedSection, if_neg h]

theorem map_validate_eq_ok {count : Nat} :
    (validate { db with sections := paged.replaced md5 db }).map (fun _ => paged.pageCount) =
      .ok count → paged.Accepted db := by
  intro h
  cases hvalid : validate { db with sections := paged.replaced md5 db } with
  | ok u => exact (PagedSection.valid_replaced _).1 (validate_eq_ok.1 hvalid)
  | error e =>
    rw [hvalid] at h
    cases h

theorem mem_replaced_of_keeps (hcount : paged.pageCount ≤ pageRange)
    (h : paged.keeps part = true) : part ∈ paged.replaced md5 db ↔ part ∈ db.sections := by
  have hkeeps := PagedSection.keeps_iff.1 h
  rw [PagedSection.mem_replaced, List.mem_filter]
  constructor
  · rintro (hkept | hpage | rfl)
    · exact hkept.1
    · have hid : part.sectionId ∈ paged.pageIds := by
        rw [← PagedSection.map_sectionId_pages md5]
        exact List.mem_map_of_mem hpage
      have hrange := PagedSection.mem_pageIds.1 hid
      exact absurd ⟨hrange.1, by omega⟩ hkeeps.2
    · exact absurd rfl hkeeps.1
  · exact fun hmem => .inl ⟨hmem, h⟩

theorem replaces_iff : Replaces md5 db paged ↔ maxU64 < paged.pageIdBase + pageRange ∨
    paged.Accepted db ∧ paged.payload ≠ [] ∨
      ¬ paged.Accepted db ∧ paged.replaced md5 db = db.sections := by
  by_cases hrange : maxU64 < paged.pageIdBase + pageRange
  · refine ⟨fun _ => .inl hrange, fun _ => ?_⟩
    have h := replacePagedSection_of_range md5 db hrange
    refine ⟨fun count hok => ?_, fun count hok => ?_, fun error _ => by rw [h]⟩
    · rw [h] at hok
      cases hok
    · rw [h] at hok
      cases hok
  · have h := replacePagedSection_of_not_range md5 db hrange
    by_cases haccepted : paged.Accepted db
    · have hpayload := sectionPayload_replaced md5 haccepted
      have hvalid := validate_eq_ok.2 ((PagedSection.valid_replaced md5).2 haccepted)
      have hcount : paged.pageCount ≤ pageRange := by
        have := haccepted.sections
        have hle : maxRecords ≤ pageRange := by decide
        omega
      constructor
      · intro hreplaces
        have hread := hreplaces.payload paged.pageCount (by rw [h, hvalid]; rfl)
        refine .inr (.inl ⟨haccepted, fun hempty => ?_⟩)
        rw [h, hpayload, if_pos hempty] at hread
        cases hread
      · rintro (hlarge | ⟨-, hne⟩ | ⟨hnot, -⟩)
        · exact absurd hlarge hrange
        · refine ⟨fun count _ => ?_, fun count _ part hkeeps => ?_, fun error herror => ?_⟩
          · rw [h, hpayload, if_neg hne]
          · rw [h]
            exact mem_replaced_of_keeps hcount hkeeps
          · rw [h, hvalid] at herror
            cases herror
        · exact absurd haccepted hnot
    · have herror : ∀ count, (db.replacePagedSection md5 paged).2 ≠ .ok count := by
        intro count hok
        rw [h] at hok
        exact haccepted (map_validate_eq_ok hok)
      constructor
      · intro hreplaces
        cases hresult : (db.replacePagedSection md5 paged).2 with
        | ok count => exact absurd hresult (herror count)
        | error error =>
          have hsame := hreplaces.unchanged error hresult
          rw [h] at hsame
          exact .inr (.inr ⟨haccepted, congrArg sections hsame⟩)
      · rintro (hlarge | ⟨hok, -⟩ | ⟨-, hsame⟩)
        · exact absurd hlarge hrange
        · exact absurd hok haccepted
        · refine ⟨fun count hok => absurd hok (herror count),
            fun count hok => absurd hok (herror count), fun error _ => ?_⟩
          rw [h]
          exact congrArg (fun sections => { db with sections }) hsame

/-- What is written of a valid database within the limits is read again, only valid databases are
read, and a replacement does what it is for exactly if the range of its pages is refused, or it is
accepted and its payload is not empty, or it is refused and changes nothing. -/
theorem database_lossless (md5 : Md5) (db : PersistentCompilerDatabase) (paged : PagedSection) :
    (validate db = .ok () ∧ db.Words ∧ db.Fits ∧
        db.payload.length ≤ maxDatabaseBytes - headerLen →
      ∃ bytes, db.encode md5 = .ok bytes ∧
        PersistentCompilerDatabase.decode md5 bytes = .ok db) ∧
    (∀ bytes read, PersistentCompilerDatabase.decode md5 bytes = .ok read →
      validate read = .ok ()) ∧
    (Replaces md5 db paged ↔ maxU64 < paged.pageIdBase + pageRange ∨
      paged.Accepted db ∧ paged.payload ≠ [] ∨
        ¬ paged.Accepted db ∧ paged.replaced md5 db = db.sections) := by
  refine ⟨?_, fun bytes read hread => ?_, replaces_iff⟩
  · rintro ⟨hvalid, hwords, hfits, hlength⟩
    have hencode := (@encode_eq_ok md5 _ _).2 ⟨hvalid, hfits, hlength, rfl⟩
    exact ⟨_, hencode, decode_eq_ok.2 ⟨hwords, hencode⟩⟩
  · exact (encode_eq_ok.1 (decode_eq_ok.1 hread).2).1

/-! ## An empty payload -/

def zeroMd5 : Md5 := fun _ => ⟨List.replicate 16 0, List.length_replicate⟩

def emptyDatabase : PersistentCompilerDatabase := ⟨zeroDigest, zeroDigest, [], [], []⟩

def emptySection : PagedSection := ⟨1, 10, zeroDigest, [], []⟩

/-- Section 1 is there, but an empty payload is not read back. -/
theorem empty_payload_not_replaced : ¬ Replaces zeroMd5 emptyDatabase emptySection := by
  intro h
  rcases replaces_iff.1 h with hlarge | ⟨-, hne⟩ | ⟨-, hsame⟩
  · exact absurd hlarge (by decide)
  · exact hne rfl
  · have hlength := congrArg List.length hsame
    rw [PagedSection.length_replaced] at hlength
    cases hlength

end

end Dream64.Compiler
