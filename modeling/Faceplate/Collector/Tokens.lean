import Mathlib.Tactic.Push
import Faceplate.Feed.Sources
import Faceplate.Collector.Basic

/-!
# The values of a snapshot

The collector's check for a token is the reader's `safe_token`, up to the length
it allows. Every variable of `main` that does not come from the RAUC output holds
a token or its default, which is one too.
-/

namespace Faceplate.Collector

open CString Feed

/-- The writer's check is the reader's. -/
theorem tokenOk_eq_safeToken (s : List UInt8) (max : ℕ) : tokenOk s max = safeToken s max := rfl

theorem tokenOk_iff {s : List UInt8} {max : ℕ} : tokenOk s max = true ↔
    s ≠ [] ∧ s.length ≤ max ∧ ∀ c ∈ s, (alnum c || c == 0x2e || c == 0x5f || c == 0x2d ||
      c == 0x3a || c == 0x2f) = true := by
  simp only [tokenOk, charsOk, Bool.and_eq_true, Bool.not_eq_true', List.isEmpty_eq_false_iff,
    decide_eq_true_eq, List.all_eq_true, and_assoc]

theorem tokenOk_mono {s : List UInt8} {m n : ℕ} (hmn : m ≤ n) (h : tokenOk s m = true) :
    tokenOk s n = true := by
  obtain ⟨hne, hlen, hall⟩ := tokenOk_iff.mp h
  exact tokenOk_iff.mpr ⟨hne, by omega, hall⟩

/-- A shorter limit accepts what a longer one does, if the value is short. -/
theorem tokenOk_of_length_le {s : List UInt8} {m n : ℕ} (hlen : s.length ≤ m)
    (h : tokenOk s n = true) : tokenOk s m = true := by
  obtain ⟨hne, -, hall⟩ := tokenOk_iff.mp h
  exact tokenOk_iff.mpr ⟨hne, hlen, hall⟩

/-- No token has a newline or a NUL in it. -/
theorem tokenOk_line {s : List UInt8} {max : ℕ} (h : tokenOk s max = true) :
    ∀ c ∈ s, c ≠ 0x0a ∧ c ≠ 0 := by
  obtain ⟨-, -, hall⟩ := tokenOk_iff.mp h
  intro c hc
  have hok := hall c hc
  constructor <;> rintro rfl <;> exact absurd hok (by decide)

theorem tokenOk_store {max cap : ℕ} {value out : List UInt8} (hmax : max ≤ 63)
    (hout : tokenOk out 63 = true) : tokenOk (store max cap value out) 63 = true := by
  unfold store
  split_ifs with h
  · exact tokenOk_mono hmax h.1
  · exact hout

theorem tokenOk_osImageLoop (rounds : ℕ) (content : List UInt8) {out : List UInt8} (cap : ℕ)
    (hout : tokenOk out 63 = true) : tokenOk (osImageLoop rounds content out cap) 63 = true := by
  induction rounds generalizing content with
  | zero => exact hout
  | succ rounds ih =>
    unfold osImageLoop
    split_ifs with hempty
    · exact hout
    · rcases fgets 256 content with ⟨line, rest⟩
      cases hvalue : stripPrefix (lit "VERSION_ID=") (cstr line) with
      | none => simpa only [hvalue] using ih rest
      | some value => simpa only [hvalue] using tokenOk_store (Nat.le_refl 63) hout

theorem tokenOk_of_digits {s : List UInt8} (hne : s ≠ []) (hlen : s.length ≤ 63)
    (hs : ∀ c ∈ s, isDigit c = true ∨ c = 0x2e) : tokenOk s 63 = true := by
  refine tokenOk_iff.mpr ⟨hne, hlen, fun c hc => ?_⟩
  rcases hs c hc with hdigit | rfl
  · simp only [isDigit] at hdigit
    simp [alnum, hdigit]
  · decide

theorem tokenOk_decimal {n : ℕ} (h : n < 2 ^ 64) : tokenOk (decimal n) 63 = true := by
  have hlen := length_decimal_le h
  exact tokenOk_of_digits (decimal_ne_nil n) (by omega) fun c hc =>
    Or.inl (isDigit_of_mem_decimal hc)

theorem length_decimal_byte (a : UInt8) : (decimal a.toNat).length ≤ 3 := by
  have hlt := a.toNat_lt
  rw [decimal, List.length_map, Nat.length_toDigits_le_iff (by decide) (by decide)]
  omega

theorem length_dotted (a b c d : UInt8) : (dotted a b c d).length ≤ 15 := by
  have ha := length_decimal_byte a
  have hb := length_decimal_byte b
  have hc := length_decimal_byte c
  have hd := length_decimal_byte d
  have hdot : (lit ".").length = 1 := rfl
  simp only [dotted, List.length_append, hdot]
  omega

theorem tokenOk_dotted (a b c d : UInt8) : tokenOk (dotted a b c d) 63 = true := by
  have hlen := length_dotted a b c d
  refine tokenOk_of_digits ?_ (by omega) fun x hx => ?_
  · simp [dotted, decimal_ne_nil]
  · have hdot : lit "." = [0x2e] := rfl
    simp only [dotted, hdot, List.mem_append, List.mem_singleton] at hx
    have hdec : ∀ n, x ∈ decimal n → isDigit x = true := fun n => isDigit_of_mem_decimal
    rcases hx with ((((((hx | hx) | hx) | hx) | hx) | hx) | hx)
    all_goals first | exact Or.inr hx | exact Or.inl (hdec _ hx)

/-- The address variable holds a dotted quad or its default. -/
theorem ip_cases (i : Inputs) : i.ip = lit "unknown" ∨ ∃ a b c d, i.ip = dotted a b c d := by
  unfold Inputs.ip primaryIp
  simp only
  cases hhead : List.head? _ with
  | none => exact Or.inl rfl
  | some address =>
    right
    obtain ⟨it, -, hit⟩ := List.mem_filterMap.mp (List.mem_of_mem_head? hhead)
    split_ifs at hit with hlo
    cases hinet : it.inet with
    | none => simp [hinet] at hit
    | some quad =>
      obtain ⟨a, b, c, d⟩ := quad
      simp only [hinet] at hit
      split_ifs at hit with hfit
      exact ⟨a, b, c, d, (Option.some.inj hit).symm⟩

/-- The default of every variable is a token. -/
theorem tokenOk_unknown : tokenOk (lit "unknown") 63 = true := by decide

theorem tokenOk_host (i : Inputs) : tokenOk i.host 63 = true := by
  unfold Inputs.host deviceHostname
  cases i.hostname with
  | none => exact tokenOk_unknown
  | some buf => exact tokenOk_store (Nat.le_refl 63) tokenOk_unknown

theorem tokenOk_image (i : Inputs) : tokenOk i.image 63 = true := by
  unfold Inputs.image osImage
  cases i.osRelease with
  | none => exact tokenOk_unknown
  | some content => exact tokenOk_osImageLoop _ _ _ tokenOk_unknown

theorem tokenOk_ip (i : Inputs) : tokenOk i.ip 63 = true := by
  rcases ip_cases i with h | ⟨a, b, c, d, h⟩ <;> rw [h]
  · exact tokenOk_unknown
  · exact tokenOk_dotted a b c d

theorem length_ip (i : Inputs) : i.ip.length ≤ 47 := by
  rcases ip_cases i with h | ⟨a, b, c, d, h⟩ <;> rw [h]
  · decide
  · exact (length_dotted a b c d).trans (by omega)

theorem channel_cases (i : Inputs) : i.channel = [] ∨ tokenOk i.channel 31 = true := by
  unfold Inputs.channel buildChannel store
  cases i.channelFile with
  | none => exact Or.inl rfl
  | some content =>
    simp only
    split_ifs with hempty h
    · exact Or.inl rfl
    · exact Or.inr h.1
    · exact Or.inl rfl

end Faceplate.Collector
