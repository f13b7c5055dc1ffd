import Mathlib

/-!
# Words between spaces

A text is split at its ASCII white space; runs of it and what is at the ends
give no words. Fields without white space that are joined with a space are its
words again, except for empty fields, which are lost.
-/

namespace Words

def isAsciiWhitespace (c : Char) : Bool :=
  c == ' ' || c == '\t' || c == '\n' || c == '\x0c' || c == '\r'

def splitAsciiWhitespace (text : List Char) : List (List Char) :=
  (text.splitOnP isAsciiWhitespace).filter fun word => !word.isEmpty

/-- Fields behind each other, with a space between any two. -/
def joined : List (List Char) → List Char
  | [] => []
  | [field] => field
  | field :: rest => field ++ ' ' :: joined rest

/-- A field without white space. -/
def Unspaced (field : List Char) : Prop := ∀ c ∈ field, isAsciiWhitespace c = false

theorem splitAsciiWhitespace_joined {fields : List (List Char)}
    (h : ∀ field ∈ fields, Unspaced field) :
    splitAsciiWhitespace (joined fields) = fields.filter fun word => !word.isEmpty := by
  induction fields with
  | nil => rfl
  | cons field rest ih =>
    have hfield := h field List.mem_cons_self
    have hrest := ih fun other hother => h other (List.mem_cons_of_mem _ hother)
    cases rest with
    | nil =>
      rw [joined, splitAsciiWhitespace, List.splitOnP_eq_singleton hfield]
    | cons next rest =>
      rw [joined, splitAsciiWhitespace,
        List.splitOnP_append_cons_of_forall_mem hfield ' ' (by decide), List.filter_cons,
        List.filter_cons, ← hrest]
      · rfl
      · exact List.cons_ne_nil _ _

/-- The text in front of the first separator and the text behind it. -/
def splitOnce (separator : Char) : List Char → Option (List Char × List Char)
  | [] => none
  | c :: text =>
    if c = separator then some ([], text)
    else (splitOnce separator text).map fun parts => (c :: parts.1, parts.2)

theorem splitOnce_append {separator : Char} {first : List Char} (h : separator ∉ first)
    (second : List Char) :
    splitOnce separator (first ++ separator :: second) = some (first, second) := by
  induction first with
  | nil => rw [List.nil_append, splitOnce, if_pos rfl]
  | cons c rest ih =>
    rw [List.mem_cons, not_or] at h
    rw [List.cons_append, splitOnce, if_neg (fun heq => h.1 heq.symm), ih h.2]
    rfl

end Words
