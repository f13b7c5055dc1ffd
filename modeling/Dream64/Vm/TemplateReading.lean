import Dream64.Vm.InterpolatedText

/-!
# Templates and readings

What formatting a list of items writes, against its reading. An ordinal cuts
the output back to where its value began, and the characters of fragments since
then are lost; formatting gives the reading of every list of values exactly if
no ordinal has a character of a fragment between its value and itself.
-/

namespace Dream64

variable {σ Target : Type} (host : TemplateHost σ Target) (state : σ)

/--
No ordinal stands behind a value with a character of a fragment between them.
The flags tell whether there has been a value, and a character since then.
-/
def OrdinalsFollow : Bool → Bool → List TemplateItem → Prop
  | _, _, [] => True
  | _, _, .hole :: items => OrdinalsFollow true false items
  | valued, _, .token (.literal _) :: items => OrdinalsFollow valued true items
  | valued, loose, .token (.marker marker) :: items =>
    (marker = textMacroOrdinal → (valued && loose) = false) ∧ OrdinalsFollow valued loose items

instance decidableOrdinalsFollow : ∀ valued loose items,
    Decidable (OrdinalsFollow valued loose items)
  | _, _, [] => isTrue trivial
  | _, _, .hole :: items => decidableOrdinalsFollow true false items
  | valued, _, .token (.literal _) :: items => decidableOrdinalsFollow valued true items
  | valued, loose, .token (.marker _) :: items =>
    @instDecidableAnd _ _ inferInstance (decidableOrdinalsFollow valued loose items)

namespace Reading

def loose (r : Reading) : Bool := r.since.any Spelled.isLiteral

/-- The state of the formatter that has written what is read so far. -/
def formatting (r : Reading) (holes : Nat) : Formatting :=
  ⟨r.text, r.values, holes, r.pendingPrefix, r.previousValue, r.before.length⟩

end Reading

theorem map_character_formatted (text : List Char) :
    (text.map Spelled.formatted).map Spelled.character = text := by
  rw [List.map_map]
  exact List.map_id text

theorem any_literal_formatted (text : List Char) :
    (text.map Spelled.formatted).any Spelled.isLiteral = false := by
  induction text with
  | nil => rfl
  | cons c text ih => exact ih

theorem any_readSuffix (suffix : Char) (previous : Option Value) (since : List Spelled) :
    (readSuffix host state suffix previous since).any Spelled.isLiteral =
      since.any Spelled.isLiteral := by
  cases previous with
  | none => rfl
  | some previous =>
    rw [readSuffix]
    split_ifs with hordinal
    · rw [List.any_append, any_literal_formatted, Bool.false_or, List.any_filter]
      simp
    · rw [List.any_append, any_literal_formatted, Bool.or_false]

/-! ## Where formatting gives the reading -/

variable {r : Reading}

/-- A macro writes what it reads as, unless an ordinal loses a character. -/
theorem text_readSuffix {suffix : Char}
    (h : suffix = textMacroOrdinal → (r.previousValue.isSome && r.loose) = false) :
    applyTextSuffix host state suffix r.previousValue r.before.length r.text =
      r.before ++ (readSuffix host state suffix r.previousValue r.since).map
        Spelled.character := by
  cases hprevious : r.previousValue with
  | none => rfl
  | some previous =>
    rw [applyTextSuffix, readSuffix]
    split_ifs with hordinal
    · have hloose := h hordinal
      rw [hprevious, Option.isSome_some, Bool.true_and, Reading.loose, List.any_eq_false] at hloose
      have hnone : r.since.filter Spelled.isLiteral = [] := List.filter_eq_nil_iff.2 hloose
      rw [hnone, List.append_nil, map_character_formatted, Reading.text, List.take_left]
    · rw [List.map_append, map_character_formatted, Reading.text, List.append_assoc]

variable {item : TemplateItem} {items : List TemplateItem}

theorem formatItem_reading {holes : Nat} (hcount : (item :: items).count .hole = r.values.length)
    (h : OrdinalsFollow r.previousValue.isSome r.loose (item :: items)) :
    formatItem host state (r.formatting holes) item =
      (readItem host state r item).map fun r' =>
        r'.formatting (holes + [item].count TemplateItem.hole) := by
  cases item with
  | token token =>
    cases token with
    | literal c =>
      show Fallible.value _ = Fallible.value _
      simp [Reading.formatting, Reading.text, Spelled.character]
    | marker m =>
      rw [formatItem, readItem]
      split_ifs with hprefix
      · rfl
      · have htext := text_readSuffix host state h.1
        show Fallible.value { r.formatting holes with
          output := applyTextSuffix host state m r.previousValue r.before.length r.text } = _
        rw [htext]
        rfl
  | hole =>
    cases hvalues : r.values with
    | nil =>
      rw [hvalues, List.count_cons_self] at hcount
      exact absurd hcount (by simp)
    | cons value values =>
      have hformat : (r.formatting holes).values = value :: values := hvalues
      rw [formatItem, readItem, hformat, hvalues]
      show (formatTextInterpolation host state value r.pendingPrefix).map _ =
        ((formatTextInterpolation host state value r.pendingPrefix).map _).map _
      cases formatTextInterpolation host state value r.pendingPrefix with
      | error e => rfl
      | panic => rfl
      | value formatted =>
        have htext : r.text ++ formatted =
            r.text ++ (formatted.map Spelled.formatted).map Spelled.character := by
          rw [map_character_formatted]
        show Fallible.value (Formatting.mk (r.text ++ formatted) values (holes + 1) none
          (some value) r.text.length) = _
        rw [htext]
        rfl

/-- What one item leaves of the values, and the flags of the items behind it. -/
theorem readItem_spec {r' : Reading} (hread : readItem host state r item = .value r')
    (hcount : (item :: items).count .hole = r.values.length)
    (h : OrdinalsFollow r.previousValue.isSome r.loose (item :: items)) :
    items.count .hole = r'.values.length ∧
      OrdinalsFollow r'.previousValue.isSome r'.loose items := by
  cases item with
  | token token =>
    have hrest : items.count .hole = r.values.length := by
      rw [← hcount, List.count_cons_of_ne (by simp)]
    cases token with
    | literal c =>
      cases hread
      refine ⟨hrest, ?_⟩
      have hloose : (r.since ++ [Spelled.literal c]).any Spelled.isLiteral = true := by
        rw [List.any_append]
        exact Bool.or_true _
      show OrdinalsFollow r.previousValue.isSome
        ((r.since ++ [Spelled.literal c]).any Spelled.isLiteral) items
      rw [hloose]
      exact h
    | marker m =>
      rw [readItem] at hread
      split_ifs at hread with hprefix
      · cases hread
        exact ⟨hrest, h.2⟩
      · cases hread
        refine ⟨hrest, ?_⟩
        show OrdinalsFollow r.previousValue.isSome
          ((readSuffix host state m r.previousValue r.since).any Spelled.isLiteral) items
        rw [any_readSuffix]
        exact h.2
  | hole =>
    cases hvalues : r.values with
    | nil =>
      rw [hvalues, List.count_cons_self] at hcount
      exact absurd hcount (by simp)
    | cons value values =>
      rw [readItem, hvalues] at hread
      obtain ⟨formatted, -, rfl⟩ := Fallible.map_eq_value.1 hread
      rw [hvalues, List.count_cons_self, List.length_cons] at hcount
      refine ⟨Nat.succ.inj hcount, ?_⟩
      show OrdinalsFollow true ((formatted.map Spelled.formatted).any Spelled.isLiteral) items
      rw [any_literal_formatted]
      exact h

theorem fold_formatItem (hcount : items.count .hole = r.values.length)
    (h : OrdinalsFollow r.previousValue.isSome r.loose items) (holes : Nat) :
    Fallible.fold (formatItem host state) (r.formatting holes) items =
      (Fallible.fold (readItem host state) r items).map fun r' =>
        r'.formatting (holes + items.count TemplateItem.hole) := by
  induction items generalizing r holes with
  | nil => rfl
  | cons item items ih =>
    rw [Fallible.fold, Fallible.fold, formatItem_reading host state hcount h]
    cases hread : readItem host state r item with
    | error e => rfl
    | panic => rfl
    | value r' =>
      obtain ⟨hcount', h'⟩ := readItem_spec host state hread hcount h
      show Fallible.fold (formatItem host state) (r'.formatting _) items = _
      rw [ih hcount' h', Nat.add_assoc, ← List.count_append]
      rfl

theorem values_of_fold {r' : Reading}
    (hread : Fallible.fold (readItem host state) r items = .value r')
    (hcount : items.count .hole = r.values.length)
    (h : OrdinalsFollow r.previousValue.isSome r.loose items) : r'.values = [] := by
  induction items generalizing r with
  | nil =>
    cases hread
    exact List.eq_nil_of_length_eq_zero hcount.symm
  | cons item items ih =>
    obtain ⟨next, hnext, hread⟩ := Fallible.bind_eq_value.1 hread
    obtain ⟨hcount', h'⟩ := readItem_spec host state hnext hcount h
    exact ih hread hcount' h'

/-- A template without such ordinals is formatted to the reading of its items. -/
theorem textTemplate_of_follow {template : List Char} {values : List Value}
    (hitems : templateItems template = items) (hcount : values.length = items.count .hole)
    (h : OrdinalsFollow false false items) :
    textTemplate host state (.ofChars template :: values) = readItems host state items values := by
  have hfold := fold_formatItem host state (r := ⟨[], [], values, none, none⟩) hcount.symm h 0
  have hstart : Reading.formatting ⟨[], [], values, none, none⟩ 0 =
      ⟨[], values, 0, none, none, 0⟩ := rfl
  rw [hstart] at hfold
  rw [Value.ofChars, textTemplate, String.toList_ofList, formatTemplate, hitems, hfold, readItems]
  cases hread : Fallible.fold (readItem host state) ⟨[], [], values, none, none⟩ items with
  | error e => rfl
  | panic => rfl
  | value r =>
    have hvalues := values_of_fold host state hread hcount.symm h
    show (if r.values = [] then Fallible.value r.text else _) = _
    rw [if_pos hvalues]
    rfl

/-! ## Where it does not -/

/-- A value that is spelled with no character. -/
def blankValue : Value := .ofChars []

theorem formatTextInterpolation_blank (pendingPrefix : Option Char) :
    formatTextInterpolation host state blankValue pendingPrefix = .value [] := by
  have hvisible : textMacroVisible host state blankValue = .value [] := rfl
  have hproper : textMacroIsProper host state blankValue = .value true := rfl
  rw [formatTextInterpolation, hvisible]
  cases pendingPrefix with
  | none => rfl
  | some marker =>
    rw [Fallible.value_bind]
    show (if marker = textMacroThe ∨ marker = textMacroTheUpper then _ else if _ then _
      else if _ then _ else _) = _
    rw [hproper]
    split_ifs <;> rfl

def literals (since : List Spelled) : Nat := (since.filter Spelled.isLiteral).length

theorem literals_formatted (text : List Char) : literals (text.map .formatted) = 0 := by
  rw [literals, List.filter_eq_nil_iff.2 (List.any_eq_false.1 (any_literal_formatted text))]
  rfl

theorem literals_append (front back : List Spelled) :
    literals (front ++ back) = literals front + literals back := by
  rw [literals, List.filter_append, List.length_append]
  rfl

theorem literals_pos {since : List Spelled} (h : since.any Spelled.isLiteral = true) :
    0 < literals since := by
  obtain ⟨c, hc, hliteral⟩ := List.any_eq_true.1 h
  exact List.length_pos_of_mem (List.mem_filter.2 ⟨hc, hliteral⟩)

/-- The formatter has written what is read, but for so many characters. -/
structure Behind (s : Formatting) (r : Reading) (lost : Nat) : Prop where
  values : s.values = r.values
  pendingPrefix : s.pendingPrefix = r.pendingPrefix
  previousValue : s.previousValue = r.previousValue
  length : s.output.length + lost = r.before.length + r.since.length
  start : s.previousOutputStart ≤ s.output.length
  before : s.previousOutputStart ≤ r.before.length
  front : r.before.length ≤ s.previousOutputStart + lost
  since : s.previousOutputStart + lost ≤ r.before.length + literals r.since

variable {s : Formatting} {lost : Nat}

/-- A macro behind a value; an ordinal loses all characters since the value. -/
theorem Behind.suffix (h : Behind s r lost) (m : Char) : ∃ lost', Behind
      { s with
        output := applyTextSuffix host state m s.previousValue s.previousOutputStart s.output }
      { r with since := readSuffix host state m r.previousValue r.since } lost' ∧
      lost ≤ lost' ∧
      (m = textMacroOrdinal → lost' = 0 → (r.previousValue.isSome && r.loose) = false) := by
  have hlength := h.length
  have hstart := h.start
  have hbefore := h.before
  have hfront := h.front
  have hsince := h.since
  cases hprevious : r.previousValue with
  | none =>
    refine ⟨lost, ?_, le_rfl, fun _ _ => rfl⟩
    rw [h.previousValue, hprevious]
    exact ⟨h.values, h.pendingPrefix, rfl, hlength, hstart, hbefore, hfront, hsince⟩
  | some previous =>
    have hvalue : s.previousValue = some previous := h.previousValue.trans hprevious
    by_cases hordinal : m = textMacroOrdinal
    · refine ⟨r.before.length - s.previousOutputStart + literals r.since, ?_, by omega,
        fun _ hlost => ?_⟩
      · have houtput : applyTextSuffix host state m s.previousValue s.previousOutputStart
            s.output = s.output.take s.previousOutputStart ++ ordinalText previous := by
          rw [hvalue, applyTextSuffix, if_pos hordinal]
        have hread : readSuffix host state m (some previous) r.since =
            (ordinalText previous).map .formatted ++ r.since.filter Spelled.isLiteral := by
          rw [readSuffix, if_pos hordinal]
        have hkept : literals (r.since.filter Spelled.isLiteral) = literals r.since := by
          rw [literals, List.filter_filter]
          simp only [Bool.and_self]
          rfl
        have hcut : (s.output.take s.previousOutputStart).length = s.previousOutputStart :=
          List.length_take_of_le hstart
        rw [houtput, hread]
        refine ⟨h.values, h.pendingPrefix, hvalue, ?_, ?_, hbefore, ?_, ?_⟩
        · simp only [List.length_append, List.length_map, hcut]
          show _ = r.before.length + (_ + literals r.since)
          omega
        · simp only [List.length_append, hcut]
          omega
        · show r.before.length ≤ s.previousOutputStart + _
          omega
        · show s.previousOutputStart + _ ≤ r.before.length + literals _
          rw [literals_append, literals_formatted, hkept]
          omega
      · rw [Option.isSome_some, Bool.true_and]
        by_contra hloose
        have hpos := literals_pos (Bool.eq_true_of_not_eq_false hloose)
        omega
    · refine ⟨lost, ?_, le_rfl, fun hm => absurd hm hordinal⟩
      have houtput : applyTextSuffix host state m s.previousValue s.previousOutputStart
          s.output = s.output ++ suffixWord host state m previous := by
        rw [hvalue, applyTextSuffix, if_neg hordinal]
      have hread : readSuffix host state m (some previous) r.since =
          r.since ++ (suffixWord host state m previous).map .formatted := by
        rw [readSuffix, if_neg hordinal]
      rw [houtput, hread]
      refine ⟨h.values, h.pendingPrefix, hvalue, ?_, ?_, hbefore, hfront, ?_⟩
      · simp only [List.length_append, List.length_map]
        omega
      · simp only [List.length_append]
        omega
      · simp only [literals_append, literals_formatted]
        omega

/-- One item: what is lost stays lost, and without a loss no ordinal was too far behind. -/
theorem Behind.step (h : Behind s r lost) (hcount : (item :: items).count .hole = r.values.length)
    (hblank : ∀ value ∈ r.values, value = blankValue) :
    ∃ s' r' lost', formatItem host state s item = .value s' ∧
      readItem host state r item = .value r' ∧ Behind s' r' lost' ∧ lost ≤ lost' ∧
      items.count .hole = r'.values.length ∧ (∀ value ∈ r'.values, value = blankValue) ∧
      (OrdinalsFollow r'.previousValue.isSome r'.loose items → lost' = 0 →
        OrdinalsFollow r.previousValue.isSome r.loose (item :: items)) := by
  cases item with
  | token token =>
    have hrest : items.count .hole = r.values.length := by
      rw [← hcount, List.count_cons_of_ne (by simp)]
    cases token with
    | literal c =>
      refine ⟨_, _, lost, rfl, rfl, ?_, le_rfl, hrest, hblank, fun hfollow _ => ?_⟩
      · have hlength := h.length
        have hstart := h.start
        have hsince := h.since
        refine ⟨h.values, h.pendingPrefix, h.previousValue, ?_, ?_, h.before, h.front, ?_⟩
        · simp only [List.length_append, List.length_singleton]
          omega
        · simp only [List.length_append, List.length_singleton]
          omega
        · simp only [literals_append]
          omega
      · have hloose : Reading.loose { r with since := r.since ++ [.literal c] } = true := by
          rw [Reading.loose, List.any_append]
          exact Bool.or_true _
        rw [hloose] at hfollow
        exact hfollow
    | marker m =>
      by_cases hprefix : prefixMarkers.elem m = true
      · refine ⟨{ s with pendingPrefix := some m }, { r with pendingPrefix := some m }, lost,
          ?_, ?_, ?_, le_rfl, hrest, hblank, fun hfollow _ => ⟨?_, hfollow⟩⟩
        · rw [formatItem, if_pos hprefix]
        · rw [readItem, if_pos hprefix]
        · exact ⟨h.values, rfl, h.previousValue, h.length, h.start, h.before, h.front, h.since⟩
        · intro hordinal
          rw [hordinal] at hprefix
          exact absurd hprefix (by decide)
      · obtain ⟨lost', hbehind, hle, hordinal⟩ := h.suffix host state m
        refine ⟨_, _, lost', ?_, ?_, hbehind, hle, hrest, hblank, fun hfollow hlost => ⟨?_, ?_⟩⟩
        · rw [formatItem, if_neg hprefix]
        · rw [readItem, if_neg hprefix]
        · exact fun hm => hordinal hm hlost
        · have hloose := any_readSuffix host state m r.previousValue r.since
          rw [Reading.loose, hloose] at hfollow
          exact hfollow
  | hole =>
    cases hvalues : r.values with
    | nil =>
      rw [hvalues, List.count_cons_self] at hcount
      exact absurd hcount (by simp)
    | cons value values =>
      have hvalue : value = blankValue := hblank value (hvalues ▸ List.mem_cons_self)
      rw [hvalues, List.count_cons_self, List.length_cons] at hcount
      have hformat := formatTextInterpolation_blank host state r.pendingPrefix
      refine ⟨⟨s.output ++ [], values, s.holes + 1, none, some value, s.output.length⟩,
        ⟨r.text, [].map .formatted, values, none, some value⟩, lost, ?_, ?_, ?_, le_rfl,
        Nat.succ.inj hcount, fun v hv => hblank v (hvalues ▸ List.mem_cons_of_mem _ hv),
        fun hfollow _ => hfollow⟩
      · rw [formatItem, h.values, hvalues, hvalue]
        show (formatTextInterpolation host state blankValue s.pendingPrefix).map _ = _
        rw [h.pendingPrefix, hformat]
        rfl
      · rw [readItem, hvalues, hvalue]
        show (formatTextInterpolation host state blankValue r.pendingPrefix).map _ = _
        rw [hformat]
        rfl
      · have hlength := h.length
        have htext : r.text.length = r.before.length + r.since.length := by
          rw [Reading.text, List.length_append, List.length_map]
        refine ⟨rfl, rfl, rfl, ?_, ?_, ?_, ?_, ?_⟩
        · simp only [List.append_nil, List.map_nil, List.length_nil]
          omega
        · simp only [List.append_nil]
          exact le_rfl
        · show s.output.length ≤ r.text.length
          omega
        · show r.text.length ≤ s.output.length + lost
          omega
        · show s.output.length + lost ≤ r.text.length + 0
          omega

theorem Behind.fold (h : Behind s r lost) (hcount : items.count .hole = r.values.length)
    (hblank : ∀ value ∈ r.values, value = blankValue) :
    ∃ s' r' lost', Fallible.fold (formatItem host state) s items = .value s' ∧
      Fallible.fold (readItem host state) r items = .value r' ∧ Behind s' r' lost' ∧
      lost ≤ lost' ∧ r'.values = [] ∧
      (lost' = 0 → OrdinalsFollow r.previousValue.isSome r.loose items) := by
  induction items generalizing s r lost with
  | nil =>
    exact ⟨s, r, lost, rfl, rfl, h, le_rfl, List.eq_nil_of_length_eq_zero hcount.symm,
      fun _ => trivial⟩
  | cons item items ih =>
    obtain ⟨s', r', lost', hformat, hread, hbehind, hle, hcount', hblank', hfollow⟩ :=
      h.step host state hcount hblank
    obtain ⟨s'', r'', lost'', hformat', hread', hbehind', hle', hvalues, hfollow'⟩ :=
      ih hbehind hcount' hblank'
    refine ⟨s'', r'', lost'', ?_, ?_, hbehind', hle.trans hle', hvalues, fun hlost => ?_⟩
    · rw [Fallible.fold, hformat]
      exact hformat'
    · rw [Fallible.fold, hread]
      exact hread'
    · exact hfollow (hfollow' hlost) (by omega)

theorem follow_of_readings {template : List Char} (hitems : templateItems template = items)
    (h : ∀ values : List Value, values.length = items.count .hole →
      textTemplate host state (.ofChars template :: values) = readItems host state items values) :
    OrdinalsFollow false false items := by
  have hblank : ∀ value ∈ List.replicate (items.count .hole) blankValue, value = blankValue :=
    fun value hvalue => List.eq_of_mem_replicate hvalue
  have hlength := List.length_replicate (n := items.count TemplateItem.hole) (a := blankValue)
  have hstart : Behind ⟨[], List.replicate (items.count .hole) blankValue, 0, none, none, 0⟩
      ⟨[], [], List.replicate (items.count .hole) blankValue, none, none⟩ 0 :=
    ⟨rfl, rfl, rfl, rfl, le_rfl, le_rfl, le_rfl, le_rfl⟩
  obtain ⟨s, r, lost, hformat, hread, hbehind, -, hvalues, hfollow⟩ :=
    hstart.fold host state hlength.symm hblank
  have htext := h _ hlength
  have hwritten : textTemplate host state
      (.ofChars template :: List.replicate (items.count .hole) blankValue) =
        .value s.output := by
    rw [Value.ofChars, textTemplate, String.toList_ofList, formatTemplate, hitems, hformat]
    show (if s.values = [] then Fallible.value s.output else _) = _
    rw [if_pos (hbehind.values.trans hvalues)]
  have hreading : readItems host state items (List.replicate (items.count .hole) blankValue) =
      .value r.text := by
    rw [readItems, hread]
    rfl
  rw [hwritten, hreading] at htext
  have hequal := congrArg List.length (Fallible.value.inj htext)
  have hloss := hbehind.length
  rw [Reading.text, List.length_append, List.length_map] at hequal
  exact hfollow (by omega)

end Dream64
