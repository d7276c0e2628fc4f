import Faceplate.Lib.Json
import Faceplate.Collector.Basic

/-!
# The strings taken from an object

`json_token_in` searches the text of an object for a key with a string behind it. What it
finds first may belong to an object within. Compared with the tree, it is a string of the
object itself exactly if the first member of that kind is one of the object.
-/

namespace Faceplate.Collector

open CString Json

/-- What `json_token_in` takes for a key is the string of a member of the object itself, not
of an object within it. -/
def TakesOwn (ms : Members) (key : List UInt8) (cap : ℕ) : Prop :=
  ∀ value, jsonString (Value.obj ms).text key cap = some value →
    ∃ m ∈ (Value.obj ms).places (keyed key) 0, m.start = 0 ∧
      jsonFind (lit "\"" ++ key ++ lit "\":\"") (Value.obj ms).text =
        some ((Value.obj ms).text.drop (m.colon + 2))

/-- The text of the string of a member, up to its first quote. -/
def stringAt (ms : Members) (m : Place) : List UInt8 :=
  ((Value.obj ms).text.drop (m.colon + 2)).takeWhile (· ≠ 0x22)

/-- The first member with a string under the key, those of objects within counted, is one of
the object itself, or its string is too long to be taken. -/
def FirstIsOwn (ms : Members) (key : List UInt8) (cap : ℕ) : Prop :=
  ∀ m ∈ (Value.obj ms).places (keyed key) 0,
    (∀ m' ∈ (Value.obj ms).places (keyed key) 0, m.colon ≤ m'.colon) →
      m.start = 0 ∨ cap ≤ (stringAt ms m).length

/-- The loop finds the first needle that has something behind it. -/
theorem jsonFind_spec {needle s found : List UInt8} (h : jsonFind needle s = some found) :
    ∃ before, s = before ++ (needle ++ found) ∧
      ∀ A C, s = A ++ (needle ++ C) → C ≠ [] → before.length ≤ A.length := by
  induction s with
  | nil => simp [jsonFind] at h
  | cons c rest ih =>
    rw [jsonFind] at h
    split_ifs at h with hshort
    cases hhere : stripPrefix needle (c :: rest) with
    | some tail =>
      simp only [hhere, Option.some.injEq] at h
      subst h
      have hsplit : c :: rest = needle ++ tail := stripPrefix_eq_some_iff.mp hhere
      exact ⟨[], hsplit, fun _ _ _ _ => Nat.zero_le _⟩
    | none =>
      simp only [hhere] at h
      obtain ⟨before, hsplit, hfirst⟩ := ih h
      refine ⟨c :: before, by rw [hsplit]; rfl, fun A C heq hC => ?_⟩
      cases A with
      | nil =>
        rw [List.nil_append] at heq
        rw [stripPrefix_eq_some_iff.mpr heq] at hhere
        exact absurd hhere (by simp)
      | cons a A =>
        have hle := hfirst A C (List.cons.inj heq).2 hC
        simp only [List.length_cons]
        omega

theorem jsonFind_eq_none {needle s A C : List UInt8} (h : jsonFind needle s = none)
    (hsplit : s = A ++ (needle ++ C)) : C = [] := by
  induction s generalizing A with
  | nil => simp_all
  | cons c rest ih =>
    rw [jsonFind] at h
    split_ifs at h with hshort
    · have hlen := congrArg List.length hsplit
      simp only [List.length_append] at hlen
      exact List.eq_nil_of_length_eq_zero (by omega)
    · cases hhere : stripPrefix needle (c :: rest) with
      | some tail => simp [hhere] at h
      | none =>
        simp only [hhere] at h
        cases A with
        | nil =>
          rw [List.nil_append] at hsplit
          rw [stripPrefix_eq_some_iff.mpr hsplit] at hhere
          exact absurd hhere (by simp)
        | cons a A => exact ih h (List.cons.inj hsplit).2

section Object

variable {ms : Members} {key : List UInt8}

theorem needle_eq (key : List UInt8) : lit "\"" ++ key ++ lit "\":\"" = keyText key := by
  have hquote : lit "\"" = [0x22] := by decide
  have hcolon : lit "\":\"" = [0x22, 0x3a, 0x22] := by decide
  rw [hquote, hcolon]
  simp [keyText, inQuotes]

/-- A place with a string stands in the text of the object. -/
theorem text_of_keyed {m : Place} (h : m ∈ (Value.obj ms).places (keyed key) 0) :
    ∃ A s C, (Value.obj ms).text = A ++ (keyText key ++ (raw s ++ 0x22 :: C)) ∧
      m.colon = A.length + (inQuotes key).length ∧
      (Value.obj ms).text.drop (m.colon + 2) = raw s ++ 0x22 :: C := by
  obtain ⟨A, s, C, htext, hstands⟩ := Value.text_of_keyed h
  have hcolon : m.colon = A.length + (inQuotes key).length := by
    rw [Place.StandsAt] at hstands
    omega
  refine ⟨A, s, C, htext, hcolon, ?_⟩
  have hlen : m.colon + 2 = (A ++ keyText key).length := by
    simp only [keyText, List.length_append, List.length_cons, List.length_nil]
    omega
  rw [htext, ← List.append_assoc, hlen, List.drop_left]

/-- The search finds the string of the first place, if there is one. -/
theorem jsonFind_keyed (hkey : IsWord key) {found : List UInt8}
    (h : jsonFind (keyText key) (Value.obj ms).text = some found) :
    ∃ m ∈ (Value.obj ms).places (keyed key) 0,
      found = (Value.obj ms).text.drop (m.colon + 2) ∧
      ∀ m' ∈ (Value.obj ms).places (keyed key) 0, m.colon ≤ m'.colon := by
  obtain ⟨before, hsplit, hfirst⟩ := jsonFind_spec h
  have hlt : before.length < (Value.obj ms).text.length := by
    rw [hsplit, List.length_append, List.length_append]
    simp only [keyText, inQuotes, List.length_append, List.length_cons]
    omega
  have hclosed : Closed [] := fun c hc => by simp at hc
  obtain ⟨m, hm, hstands⟩ :
      ∃ m ∈ (Value.obj ms).places (keyed key) 0, m.StandsAt key (0 + before.length) :=
    Value.place_of_text hkey (opens_keyed found) (Value.obj ms) hclosed
      (by rw [List.append_nil, hsplit]) hlt
  have hcolon : m.colon = before.length + (inQuotes key).length := by
    rw [Place.StandsAt] at hstands
    omega
  refine ⟨m, hm, ?_, fun m' hm' => ?_⟩
  · have hlen : m.colon + 2 = (before ++ keyText key).length := by
      simp only [keyText, List.length_append, List.length_cons, List.length_nil]
      omega
    rw [hlen, hsplit, ← List.append_assoc, List.drop_left]
  · obtain ⟨A, s, C, htext, hcolon', -⟩ := text_of_keyed hm'
    have hle := hfirst A _ htext (by simp)
    omega

theorem jsonFind_ne_none {m : Place} (h : m ∈ (Value.obj ms).places (keyed key) 0) :
    jsonFind (keyText key) (Value.obj ms).text ≠ none := by
  obtain ⟨A, s, C, htext, -⟩ := text_of_keyed h
  intro hnone
  exact absurd (jsonFind_eq_none hnone htext) (by simp)

/-- Members of one object and of an object within it do not stand at the same place. -/
theorem start_eq_zero {P : List StrUnit → Value → Bool} {m m' : Place}
    (hm : m ∈ (Value.obj ms).places P 0) (hm' : m' ∈ (Value.obj ms).places P 0)
    (hcolon : m.colon = m'.colon) (hstart : m'.start = 0) : m.start = 0 := by
  obtain ⟨hinside, -⟩ := Value.places_spec (Value.obj ms) hm
  have haround : Around m.start m.members m'.colon := by
    have hlow := hinside.start_lt
    have hhigh := hinside.lt_end
    have hpos := m.pos_le_colon
    constructor <;> omega
  have hle := Value.around_le (Value.obj ms) hm' hinside.mem haround
  omega

/-- A string is taken if it is found and short enough. -/
theorem jsonString_eq_some_iff {text value : List UInt8} {cap : ℕ} :
    jsonString text key cap = some value ↔ ∃ found, jsonFind (keyText key) text = some found ∧
      0x22 ∈ found ∧ value = found.takeWhile (· ≠ 0x22) ∧ value.length < cap := by
  rw [jsonString, needle_eq]
  cases jsonFind (keyText key) text with
  | none => simp
  | some found =>
    simp only [Option.some.injEq, exists_eq_left']
    by_cases hmem : 0x22 ∈ found
    · obtain ⟨before, after, rfl, hclear⟩ := List.eq_append_cons_of_mem hmem
      have htake : (before ++ 0x22 :: after).takeWhile (· ≠ 0x22) = before := by
        rw [List.takeWhile_append_of_pos fun c hc => by
          simp only [ne_eq, decide_eq_true_eq]
          rintro rfl
          exact hclear hc]
        simp
      rw [strchr_append hclear, htake]
      simp only [hmem, true_and]
      split_ifs with hlong
      · simp only [false_iff]
        rintro ⟨rfl, hlt⟩
        omega
      · constructor
        · intro h
          obtain rfl := Option.some.inj h
          exact ⟨rfl, Nat.not_le.mp hlong⟩
        · rintro ⟨rfl, -⟩
          rfl
    · have hnone : strchr 0x22 found = none := by
        cases hquote : strchr 0x22 found with
        | none => rfl
        | some parts =>
          have hsplit := (strchr_eq_some_iff.mp (hquote : _ = some (parts.1, parts.2))).1
          exact absurd (by rw [hsplit]; simp) hmem
      rw [hnone]
      simp [hmem]

/-- The string taken is one of the object itself exactly if the first one is. -/
theorem takesOwn_iff (hkey : IsWord key) (cap : ℕ) :
    TakesOwn ms key cap ↔ FirstIsOwn ms key cap := by
  constructor
  · intro htakes m hm hfirst
    by_contra hnot
    simp only [not_or, Nat.not_le] at hnot
    obtain ⟨hstart, hshort⟩ := hnot
    cases hfind : jsonFind (keyText key) (Value.obj ms).text with
    | none => exact jsonFind_ne_none hm hfind
    | some found =>
      obtain ⟨m₁, hm₁, rfl, hfirst₁⟩ := jsonFind_keyed hkey hfind
      have hcolon : m₁.colon = m.colon :=
        Nat.le_antisymm (hfirst₁ m hm) (hfirst m₁ hm₁)
      obtain ⟨A, s, C, -, -, hdrop⟩ := text_of_keyed hm₁
      have hquote : 0x22 ∈ (Value.obj ms).text.drop (m₁.colon + 2) := by
        rw [hdrop]
        simp
      have htaken := jsonString_eq_some_iff.mpr ⟨_, hfind, hquote, rfl, by
        rw [hcolon]
        exact hshort⟩
      obtain ⟨m₂, hm₂, hstart₂, hfind₂⟩ := htakes _ htaken
      rw [needle_eq, hfind] at hfind₂
      have hcolon₂ : m.colon = m₂.colon := by
        obtain ⟨A₂, s₂, C₂, htext₂, hcolon₂, -⟩ := text_of_keyed hm₂
        obtain ⟨A₁, s₁, C₁, htext₁, hcolon₁, -⟩ := text_of_keyed hm₁
        have hlen := congrArg List.length (Option.some.inj hfind₂)
        have hlen₁ := congrArg List.length htext₁
        have hlen₂ := congrArg List.length htext₂
        simp only [keyText, List.length_drop, List.length_append, List.length_cons] at *
        omega
      exact hstart (start_eq_zero hm hm₂ hcolon₂ hstart₂)
  · intro hfirst value htaken
    obtain ⟨found, hfind, -, rfl, hshort⟩ := jsonString_eq_some_iff.mp htaken
    obtain ⟨m, hm, rfl, hleast⟩ := jsonFind_keyed hkey hfind
    refine ⟨m, hm, ?_, by rw [needle_eq, hfind]⟩
    rcases hfirst m hm hleast with hstart | hlong
    · exact hstart
    · exact absurd hshort (Nat.not_lt.mpr hlong)

end Object

end Faceplate.Collector
