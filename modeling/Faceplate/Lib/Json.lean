import Faceplate.Lib.CString

/-!
# Compact JSON

JSON texts without blanks, as trees with their spelling: a string keeps its escapes as
they are written. Objects and members are listed with the positions at which they stand
in the text.
-/

namespace Faceplate.Json

open CString

/-- A hexadecimal digit. -/
def isHex (c : UInt8) : Bool :=
  isDigit c || (0x61 ≤ c && c ≤ 0x66) || (0x41 ≤ c && c ≤ 0x46)

/-- A unit of a string: a byte, an escape of one letter, or a code unit in hexadecimal. -/
inductive StrUnit where
  | plain (c : UInt8) (h : 0x20 ≤ c ∧ c ≠ 0x22 ∧ c ≠ 0x5c)
  | escape (c : UInt8) (h : c ∈ lit "\"\\/bfnrt")
  | unicode (a b c d : UInt8) (h : isHex a ∧ isHex b ∧ isHex c ∧ isHex d)

/-- The value of a hexadecimal digit. -/
def hexValue (c : UInt8) : ℕ :=
  if isDigit c then c.toNat - 0x30 else if 0x61 ≤ c then c.toNat - 0x57 else c.toNat - 0x37

/-- The code unit that a unit stands for. -/
def StrUnit.value : StrUnit → ℕ
  | .plain c _ => c.toNat
  | .escape c _ =>
    if c = 0x62 then 8 else if c = 0x66 then 12 else if c = 0x6e then 10
    else if c = 0x72 then 13 else if c = 0x74 then 9 else c.toNat
  | .unicode a b c d _ => 16 * (16 * (16 * hexValue a + hexValue b) + hexValue c) + hexValue d

/-- The bytes of a unit. -/
def StrUnit.bytes : StrUnit → List UInt8
  | .plain c _ => [c]
  | .escape c _ => [0x5c, c]
  | .unicode a b c d _ => [0x5c, 0x75, a, b, c, d]

/-- The bytes between the quotes of a string. -/
def raw (s : List StrUnit) : List UInt8 := s.flatMap StrUnit.bytes

/-- A string in its quotes. -/
def quoted (s : List StrUnit) : List UInt8 := 0x22 :: (raw s ++ [0x22])

/-- The string denotes this text of ASCII characters. -/
def denotes (s : List StrUnit) (w : List UInt8) : Bool :=
  s.map StrUnit.value = w.map UInt8.toNat

/-- A string without escapes. -/
def plainly (w : List UInt8) (h : ∀ c ∈ w, 0x20 ≤ c ∧ c ≠ 0x22 ∧ c ≠ 0x5c) : List StrUnit :=
  w.attach.map fun c => .plain c.1 (h c.1 c.2)

/-- A number: a sign, digits without a leading zero, a fraction and an exponent. -/
def IsNumber (t : List UInt8) : Prop :=
  ∃ sign int frac exp, t = sign ++ (int ++ (frac ++ exp)) ∧
    (sign = [] ∨ sign = [0x2d]) ∧
    (∃ d ds, int = d :: ds ∧ (∀ c ∈ int, isDigit c = true) ∧ (d = 0x30 → ds = [])) ∧
    (frac = [] ∨ ∃ ds, frac = 0x2e :: ds ∧ ds ≠ [] ∧ ∀ c ∈ ds, isDigit c = true) ∧
    (exp = [] ∨ ∃ e sign' ds, exp = e :: (sign' ++ ds) ∧ (e = 0x65 ∨ e = 0x45) ∧
      (sign' = [] ∨ sign' = [0x2b] ∨ sign' = [0x2d]) ∧ ds ≠ [] ∧ ∀ c ∈ ds, isDigit c = true)

/-- A value that is neither a string nor has parts. -/
def IsAtom (t : List UInt8) : Prop :=
  t = lit "null" ∨ t = lit "true" ∨ t = lit "false" ∨ IsNumber t

mutual

/-- A JSON value. -/
inductive Value where
  | atom (t : List UInt8) (h : IsAtom t)
  | str (s : List StrUnit)
  | arr (items : Items)
  | obj (members : Members)

/-- The items of an array. -/
inductive Items where
  | nil
  | cons (v : Value) (rest : Items)

/-- The members of an object. -/
inductive Members where
  | nil
  | cons (k : List StrUnit) (v : Value) (rest : Members)

end

/-- The comma before all but the first. -/
def comma (first : Bool) : List UInt8 := if first then [] else [0x2c]

mutual

/-- The text of a value. -/
def Value.text : Value → List UInt8
  | .atom t _ => t
  | .str s => quoted s
  | .arr items => 0x5b :: (items.text true ++ [0x5d])
  | .obj members => 0x7b :: (members.text true ++ [0x7d])

/-- The text of items between the brackets. -/
def Items.text (first : Bool) : Items → List UInt8
  | .nil => []
  | .cons v rest => comma first ++ (v.text ++ rest.text false)

/-- The text of members between the braces. -/
def Members.text (first : Bool) : Members → List UInt8
  | .nil => []
  | .cons k v rest => comma first ++ (quoted k ++ 0x3a :: (v.text ++ rest.text false))

end

mutual

/-- The objects of a value whose text stands at `p`, each with its position. -/
def Value.objects (p : ℕ) : Value → List (ℕ × Members)
  | .atom _ _ => []
  | .str _ => []
  | .arr items => items.objects true (p + 1)
  | .obj members => (p, members) :: members.objects true (p + 1)

/-- The objects in the items of an array. -/
def Items.objects (first : Bool) (p : ℕ) : Items → List (ℕ × Members)
  | .nil => []
  | .cons v rest =>
    v.objects (p + (comma first).length) ++
      rest.objects false (p + (comma first).length + v.text.length)

/-- The objects in the members of an object. -/
def Members.objects (first : Bool) (p : ℕ) : Members → List (ℕ × Members)
  | .nil => []
  | .cons k v rest =>
    let at_ := p + (comma first).length + (quoted k).length + 1
    v.objects at_ ++ rest.objects false (at_ + v.text.length)

end

/-- A member of an object: where it stands, its key, and the object with its own position. -/
structure Place where
  pos : ℕ
  key : List StrUnit
  start : ℕ
  members : Members

/-- Where the colon behind the key stands. -/
def Place.colon (m : Place) : ℕ := m.pos + (quoted m.key).length

theorem Place.pos_le_colon (m : Place) : m.pos ≤ m.colon := Nat.le_add_right _ _

section Places

variable (P : List StrUnit → Value → Bool)

mutual

/-- The members of the objects of a value with a property. -/
def Value.places (p : ℕ) : Value → List Place
  | .atom _ _ => []
  | .str _ => []
  | .arr items => items.places true (p + 1)
  | .obj members => Members.places p members true (p + 1) members

/-- The members with the property in the items of an array. -/
def Items.places (first : Bool) (p : ℕ) : Items → List Place
  | .nil => []
  | .cons v rest =>
    v.places (p + (comma first).length) ++
      rest.places false (p + (comma first).length + v.text.length)

/-- The members with the property among these members of the object `all` at `start`, and
in their values. -/
def Members.places (start : ℕ) (all : Members) (first : Bool) (p : ℕ) : Members → List Place
  | .nil => []
  | .cons k v rest =>
    let pos := p + (comma first).length
    (if P k v then [⟨pos, k, start, all⟩] else []) ++
      (v.places (pos + (quoted k).length + 1) ++
        Members.places start all false (pos + (quoted k).length + 1 + v.text.length) rest)

end

/-- A member with the property is among these. -/
def Members.has : Members → Bool
  | .nil => false
  | .cons k v rest => P k v || rest.has

end Places

mutual

/-- An object of a value stands in its text. -/
theorem Value.objects_spec {p i : ℕ} {ms : Members} : (v : Value) → (i, ms) ∈ v.objects p →
    ∃ pre post, v.text = pre ++ ((Value.obj ms).text ++ post) ∧ i = p + pre.length
  | .atom _ _, h => by simp [Value.objects] at h
  | .str _, h => by simp [Value.objects] at h
  | .arr items, h => by
    obtain ⟨pre, post, htext, hi⟩ := Items.objects_spec items h
    refine ⟨0x5b :: pre, post ++ [0x5d], ?_, ?_⟩
    · simp [Value.text, htext]
    · rw [hi, List.length_cons]
      omega
  | .obj members, h => by
    rcases List.mem_cons.mp h with heq | h
    · obtain ⟨rfl, rfl⟩ := Prod.mk.inj heq
      exact ⟨[], [], by simp, rfl⟩
    · obtain ⟨pre, post, htext, hi⟩ := Members.objects_spec members h
      refine ⟨0x7b :: pre, post ++ [0x7d], ?_, ?_⟩
      · rw [Value.text, htext]
        simp
      · rw [hi, List.length_cons]
        omega

theorem Items.objects_spec {p i : ℕ} {ms : Members} {first : Bool} : (items : Items) →
    (i, ms) ∈ items.objects first p →
    ∃ pre post, items.text first = pre ++ ((Value.obj ms).text ++ post) ∧ i = p + pre.length
  | .nil, h => by simp [Items.objects] at h
  | .cons v rest, h => by
    rcases List.mem_append.mp h with h | h
    · obtain ⟨pre, post, htext, hi⟩ := Value.objects_spec v h
      refine ⟨comma first ++ pre, post ++ rest.text false, ?_, ?_⟩
      · rw [Items.text, htext]
        simp
      · rw [hi, List.length_append]
        omega
    · obtain ⟨pre, post, htext, hi⟩ := Items.objects_spec rest h
      refine ⟨comma first ++ (v.text ++ pre), post, ?_, ?_⟩
      · rw [Items.text, htext]
        simp
      · rw [hi, List.length_append, List.length_append]
        omega

theorem Members.objects_spec {p i : ℕ} {ms : Members} {first : Bool} : (members : Members) →
    (i, ms) ∈ members.objects first p →
    ∃ pre post, members.text first = pre ++ ((Value.obj ms).text ++ post) ∧ i = p + pre.length
  | .nil, h => by simp [Members.objects] at h
  | .cons k v rest, h => by
    rcases List.mem_append.mp h with h | h
    · obtain ⟨pre, post, htext, hi⟩ := Value.objects_spec v h
      refine ⟨comma first ++ (quoted k ++ 0x3a :: pre), post ++ rest.text false, ?_, ?_⟩
      · rw [Members.text, htext]
        simp
      · simp only [List.length_append, List.length_cons]
        omega
    · obtain ⟨pre, post, htext, hi⟩ := Members.objects_spec rest h
      refine ⟨comma first ++ (quoted k ++ 0x3a :: (v.text ++ pre)), post, ?_, ?_⟩
      · rw [Members.text, htext]
        simp
      · simp only [List.length_append, List.length_cons]
        omega

end

theorem Value.objects_bounds {p i : ℕ} {ms : Members} {v : Value} (h : (i, ms) ∈ v.objects p) :
    p ≤ i ∧ i + (Value.obj ms).text.length ≤ p + v.text.length := by
  obtain ⟨pre, post, htext, hi⟩ := Value.objects_spec v h
  have hlen := congrArg List.length htext
  simp only [List.length_append] at hlen
  omega

theorem Items.objects_bounds {p i : ℕ} {ms : Members} {first : Bool} {items : Items}
    (h : (i, ms) ∈ items.objects first p) :
    p ≤ i ∧ i + (Value.obj ms).text.length ≤ p + (items.text first).length := by
  obtain ⟨pre, post, htext, hi⟩ := Items.objects_spec items h
  have hlen := congrArg List.length htext
  simp only [List.length_append] at hlen
  omega

theorem Members.objects_bounds {p i : ℕ} {ms : Members} {first : Bool} {members : Members}
    (h : (i, ms) ∈ members.objects first p) :
    p ≤ i ∧ i + (Value.obj ms).text.length ≤ p + (members.text first).length := by
  obtain ⟨pre, post, htext, hi⟩ := Members.objects_spec members h
  have hlen := congrArg List.length htext
  simp only [List.length_append] at hlen
  omega

theorem length_obj_pos (ms : Members) : 0 < (Value.obj ms).text.length := by simp [Value.text]

mutual

/-- One object at most starts at a position. -/
theorem Value.objects_unique {p i : ℕ} {a b : Members} : (v : Value) →
    (i, a) ∈ v.objects p → (i, b) ∈ v.objects p → a = b
  | .atom _ _, h, _ => by simp [Value.objects] at h
  | .str _, h, _ => by simp [Value.objects] at h
  | .arr items, ha, hb => Items.objects_unique items ha hb
  | .obj members, ha, hb => by
    rcases List.mem_cons.mp ha with ha | ha <;> rcases List.mem_cons.mp hb with hb | hb
    · rw [(Prod.mk.inj ha).2, (Prod.mk.inj hb).2]
    · have hbound := (Members.objects_bounds hb).1
      have hi := (Prod.mk.inj ha).1
      omega
    · have hbound := (Members.objects_bounds ha).1
      have hi := (Prod.mk.inj hb).1
      omega
    · exact Members.objects_unique members ha hb

theorem Items.objects_unique {p i : ℕ} {a b : Members} {first : Bool} : (items : Items) →
    (i, a) ∈ items.objects first p → (i, b) ∈ items.objects first p → a = b
  | .nil, h, _ => by simp [Items.objects] at h
  | .cons v rest, ha, hb => by
    have hpos := length_obj_pos a
    have hpos' := length_obj_pos b
    rcases List.mem_append.mp ha with ha | ha <;> rcases List.mem_append.mp hb with hb | hb
    · exact Value.objects_unique v ha hb
    · have hbound := Value.objects_bounds ha
      have hbound' := Items.objects_bounds hb
      omega
    · have hbound := Items.objects_bounds ha
      have hbound' := Value.objects_bounds hb
      omega
    · exact Items.objects_unique rest ha hb

theorem Members.objects_unique {p i : ℕ} {a b : Members} {first : Bool} : (members : Members) →
    (i, a) ∈ members.objects first p → (i, b) ∈ members.objects first p → a = b
  | .nil, h, _ => by simp [Members.objects] at h
  | .cons k v rest, ha, hb => by
    have hpos := length_obj_pos a
    have hpos' := length_obj_pos b
    rcases List.mem_append.mp ha with ha | ha <;> rcases List.mem_append.mp hb with hb | hb
    · exact Value.objects_unique v ha hb
    · have hbound := Value.objects_bounds ha
      have hbound' := Members.objects_bounds hb
      omega
    · have hbound := Members.objects_bounds ha
      have hbound' := Value.objects_bounds hb
      omega
    · exact Members.objects_unique rest ha hb

end

section Places

variable {P : List StrUnit → Value → Bool}

/-- A place in an object of the value: its member has the property, and it stands inside
of the object. -/
structure Place.Inside (m : Place) (objects : List (ℕ × Members))
    (P : List StrUnit → Value → Bool) : Prop where
  mem : (m.start, m.members) ∈ objects
  has : m.members.has P = true
  start_lt : m.start < m.pos
  lt_end : m.colon < m.start + (Value.obj m.members).text.length

theorem Place.Inside.mono {m : Place} {objects objects' : List (ℕ × Members)}
    (h : m.Inside objects P) (hsub : ∀ o ∈ objects, o ∈ objects') : m.Inside objects' P :=
  ⟨hsub _ h.mem, h.has, h.start_lt, h.lt_end⟩

mutual

/-- A member that was found stands in the text and inside of its object. -/
theorem Value.places_spec {p : ℕ} {m : Place} : (v : Value) → m ∈ v.places P p →
    m.Inside (v.objects p) P ∧ ∃ w pre post, P m.key w = true ∧
      v.text = pre ++ (quoted m.key ++ 0x3a :: (w.text ++ post)) ∧ m.pos = p + pre.length
  | .atom _ _, h => by simp [Value.places] at h
  | .str _, h => by simp [Value.places] at h
  | .arr items, h => by
    obtain ⟨hinside, w, pre, post, hP, htext, hpos⟩ := Items.places_spec items h
    refine ⟨hinside, w, 0x5b :: pre, post ++ [0x5d], hP, ?_, ?_⟩
    · rw [Value.text, htext]
      simp
    · rw [hpos, List.length_cons]
      omega
  | .obj members, h => by
    obtain ⟨hwhere, w, pre, post, hP, htext, hpos⟩ := Members.places_spec members h
    refine ⟨?_, w, 0x7b :: pre, post ++ [0x7d], hP, ?_, ?_⟩
    · rcases hwhere with ⟨hstart, hmembers, hhas⟩ | hinside
      · refine ⟨?_, by rw [hmembers, hhas], by omega, ?_⟩
        · rw [hstart, hmembers]
          exact List.mem_cons_self
        · have hlen := congrArg List.length htext
          rw [hstart, hmembers, Value.text]
          simp only [Place.colon, List.length_append, List.length_cons] at hlen ⊢
          omega
      · exact hinside.mono fun o ho => List.mem_cons_of_mem _ ho
    · rw [Value.text, htext]
      simp
    · rw [hpos, List.length_cons]
      omega

theorem Items.places_spec {p : ℕ} {m : Place} {first : Bool} : (items : Items) →
    m ∈ items.places P first p →
    m.Inside (items.objects first p) P ∧ ∃ w pre post, P m.key w = true ∧
      items.text first = pre ++ (quoted m.key ++ 0x3a :: (w.text ++ post)) ∧ m.pos = p + pre.length
  | .nil, h => by simp [Items.places] at h
  | .cons v rest, h => by
    rcases List.mem_append.mp h with h | h
    · obtain ⟨hinside, w, pre, post, hP, htext, hpos⟩ := Value.places_spec v h
      refine ⟨hinside.mono fun o ho => List.mem_append_left _ ho, w, comma first ++ pre,
        post ++ rest.text false, hP, ?_, ?_⟩
      · rw [Items.text, htext]
        simp
      · rw [hpos, List.length_append]
        omega
    · obtain ⟨hinside, w, pre, post, hP, htext, hpos⟩ := Items.places_spec rest h
      refine ⟨hinside.mono fun o ho => List.mem_append_right _ ho, w,
        comma first ++ (v.text ++ pre), post, hP, ?_, ?_⟩
      · rw [Items.text, htext]
        simp
      · rw [hpos, List.length_append, List.length_append]
        omega

theorem Members.places_spec {start p : ℕ} {all : Members} {m : Place} {first : Bool} :
    (members : Members) → m ∈ Members.places P start all first p members →
    ((m.start = start ∧ m.members = all ∧ members.has P = true) ∨
      m.Inside (members.objects first p) P) ∧ ∃ w pre post, P m.key w = true ∧
      members.text first = pre ++ (quoted m.key ++ 0x3a :: (w.text ++ post)) ∧
        m.pos = p + pre.length
  | .nil, h => by simp [Members.places] at h
  | .cons k v rest, h => by
    rcases List.mem_append.mp h with h | h
    · by_cases hP : P k v = true
      · rw [if_pos hP, List.mem_singleton] at h
        subst h
        refine ⟨Or.inl ⟨rfl, rfl, by simp [Members.has, hP]⟩, v, comma first,
          rest.text false, hP, rfl, rfl⟩
      · rw [if_neg hP] at h
        simp at h
    · rcases List.mem_append.mp h with h | h
      · obtain ⟨hinside, w, pre, post, hP, htext, hpos⟩ := Value.places_spec v h
        refine ⟨Or.inr (hinside.mono fun o ho => List.mem_append_left _ ho), w,
          comma first ++ (quoted k ++ 0x3a :: pre), post ++ rest.text false, hP, ?_, ?_⟩
        · rw [Members.text, htext]
          simp
        · simp only [List.length_append, List.length_cons]
          omega
      · obtain ⟨hwhere, w, pre, post, hP, htext, hpos⟩ := Members.places_spec rest h
        refine ⟨?_, w, comma first ++ (quoted k ++ 0x3a :: (v.text ++ pre)), post, hP, ?_, ?_⟩
        · rcases hwhere with ⟨hstart, hmembers, hhas⟩ | hinside
          · exact Or.inl ⟨hstart, hmembers, by simp [Members.has, hhas]⟩
          · exact Or.inr (hinside.mono fun o ho => List.mem_append_right _ ho)
        · rw [Members.text, htext]
          simp
        · simp only [List.length_append, List.length_cons]
          omega

end

/-- A member with the property among some members is found. -/
theorem Members.exists_place {start p : ℕ} {all : Members} {first : Bool} : (members : Members) →
    members.has P = true → ∃ m ∈ Members.places P start all first p members, m.start = start
  | .nil, h => by simp [Members.has] at h
  | .cons k v rest, h => by
    by_cases hP : P k v = true
    · exact ⟨_, List.mem_append_left _ (by rw [if_pos hP]; exact List.mem_cons_self), rfl⟩
    · have hrest : rest.has P = true := by simpa [Members.has, hP] using h
      obtain ⟨m, hm, hstart⟩ := Members.exists_place rest hrest
      exact ⟨m, List.mem_append_right _ (List.mem_append_right _ hm), hstart⟩

mutual

/-- An object with such a member has a place. -/
theorem Value.exists_place {p i : ℕ} {ms : Members} : (v : Value) → (i, ms) ∈ v.objects p →
    ms.has P = true → ∃ m ∈ v.places P p, m.start = i
  | .atom _ _, h, _ => by simp [Value.objects] at h
  | .str _, h, _ => by simp [Value.objects] at h
  | .arr items, h, hhas => Items.exists_place items h hhas
  | .obj members, h, hhas => by
    rcases List.mem_cons.mp h with heq | h
    · obtain ⟨rfl, rfl⟩ := Prod.mk.inj heq
      exact Members.exists_place ms hhas
    · exact Members.exists_place_nested members h hhas

theorem Items.exists_place {p i : ℕ} {ms : Members} {first : Bool} : (items : Items) →
    (i, ms) ∈ items.objects first p → ms.has P = true →
    ∃ m ∈ items.places P first p, m.start = i
  | .nil, h, _ => by simp [Items.objects] at h
  | .cons v rest, h, hhas => by
    rcases List.mem_append.mp h with h | h
    · obtain ⟨m, hm, hstart⟩ := Value.exists_place v h hhas
      exact ⟨m, List.mem_append_left _ hm, hstart⟩
    · obtain ⟨m, hm, hstart⟩ := Items.exists_place rest h hhas
      exact ⟨m, List.mem_append_right _ hm, hstart⟩

theorem Members.exists_place_nested {start p i : ℕ} {ms all : Members} {first : Bool} :
    (members : Members) → (i, ms) ∈ members.objects first p → ms.has P = true →
    ∃ m ∈ Members.places P start all first p members, m.start = i
  | .nil, h, _ => by simp [Members.objects] at h
  | .cons k v rest, h, hhas => by
    rcases List.mem_append.mp h with h | h
    · obtain ⟨m, hm, hstart⟩ := Value.exists_place v h hhas
      exact ⟨m, List.mem_append_right _ (List.mem_append_left _ hm), hstart⟩
    · obtain ⟨m, hm, hstart⟩ := Members.exists_place_nested rest h hhas
      exact ⟨m, List.mem_append_right _ (List.mem_append_right _ hm), hstart⟩

end

theorem Value.places_bounds {p : ℕ} {m : Place} {v : Value} (h : m ∈ v.places P p) :
    p ≤ m.pos ∧ m.colon < p + v.text.length := by
  obtain ⟨-, w, pre, post, -, htext, hpos⟩ := Value.places_spec v h
  rw [Place.colon, htext, hpos]
  simp only [List.length_append, List.length_cons]
  omega

theorem Items.places_bounds {p : ℕ} {m : Place} {first : Bool} {items : Items}
    (h : m ∈ items.places P first p) : p ≤ m.pos ∧ m.colon < p + (items.text first).length := by
  obtain ⟨-, w, pre, post, -, htext, hpos⟩ := Items.places_spec items h
  rw [Place.colon, htext, hpos]
  simp only [List.length_append, List.length_cons]
  omega

theorem Members.places_bounds {start p : ℕ} {all : Members} {m : Place} {first : Bool}
    {members : Members} (h : m ∈ Members.places P start all first p members) :
    p ≤ m.pos ∧ m.colon < p + (members.text first).length := by
  obtain ⟨-, w, pre, post, -, htext, hpos⟩ := Members.places_spec members h
  rw [Place.colon, htext, hpos]
  simp only [List.length_append, List.length_cons]
  omega

/-- The object at `i` has this position inside of it. -/
def Around (i : ℕ) (ms : Members) (pos : ℕ) : Prop :=
  i < pos ∧ pos < i + (Value.obj ms).text.length

mutual

/-- An object around a member starts where the member's own object starts, or before. -/
theorem Value.around_le {p i : ℕ} {ms : Members} {m : Place} : (v : Value) →
    m ∈ v.places P p → (i, ms) ∈ v.objects p → Around i ms m.colon → i ≤ m.start
  | .atom _ _, h, _, _ => by simp [Value.places] at h
  | .str _, h, _, _ => by simp [Value.places] at h
  | .arr items, hm, ho, haround => Items.around_le items hm ho haround
  | .obj members, hm, ho, haround => by
    rcases List.mem_cons.mp ho with heq | ho
    · have hstart : p ≤ m.start := by
        rcases (Members.places_spec members hm).1 with ⟨hstart, -, -⟩ | hinside
        · omega
        · have := (Members.objects_bounds hinside.mem).1
          omega
      have hi := (Prod.mk.inj heq).1
      omega
    · exact Members.around_le members hm ho haround

theorem Items.around_le {p i : ℕ} {ms : Members} {m : Place} {first : Bool} : (items : Items) →
    m ∈ items.places P first p → (i, ms) ∈ items.objects first p → Around i ms m.colon →
    i ≤ m.start
  | .nil, h, _, _ => by simp [Items.places] at h
  | .cons v rest, hm, ho, haround => by
    obtain ⟨hlow, hhigh⟩ := haround
    have hcolon := m.pos_le_colon
    rcases List.mem_append.mp hm with hm | hm <;> rcases List.mem_append.mp ho with ho | ho
    · exact Value.around_le v hm ho ⟨hlow, hhigh⟩
    · have hplace := Value.places_bounds hm
      have hobject := Items.objects_bounds ho
      omega
    · have hplace := Items.places_bounds hm
      have hobject := Value.objects_bounds ho
      omega
    · exact Items.around_le rest hm ho ⟨hlow, hhigh⟩

theorem Members.around_le {start p i : ℕ} {ms all : Members} {m : Place} {first : Bool} :
    (members : Members) → m ∈ Members.places P start all first p members →
    (i, ms) ∈ members.objects first p → Around i ms m.colon → i ≤ m.start
  | .nil, h, _, _ => by simp [Members.places] at h
  | .cons k v rest, hm, ho, haround => by
    obtain ⟨hlow, hhigh⟩ := haround
    have hcolon := m.pos_le_colon
    rcases List.mem_append.mp hm with hm | hm
    · -- the member itself stands before all of these objects
      have hpos : m.colon = p + (comma first).length + (quoted k).length := by
        split_ifs at hm
        · rw [List.mem_singleton.mp hm]
          rfl
        · simp at hm
      rcases List.mem_append.mp ho with ho | ho
      · have hobject := Value.objects_bounds ho
        omega
      · have hobject := Members.objects_bounds ho
        omega
    rcases List.mem_append.mp hm with hm | hm <;> rcases List.mem_append.mp ho with ho | ho
    · exact Value.around_le v hm ho ⟨hlow, hhigh⟩
    · have hplace := Value.places_bounds hm
      have hobject := Members.objects_bounds ho
      omega
    · have hplace := Members.places_bounds hm
      have hobject := Value.objects_bounds ho
      omega
    · exact Members.around_le rest hm ho ⟨hlow, hhigh⟩

end

end Places

theorem raw_cons (u : StrUnit) (s : List StrUnit) : raw (u :: s) = u.bytes ++ raw s := by
  simp [raw]

/-- A string up to its closing quote is what stands before the first quote of a text
without backslashes. -/
theorem raw_eq_of_append {s : List StrUnit} {w t t' : List UInt8} (hw : 0x22 ∉ w ∧ 0x5c ∉ w)
    (h : raw s ++ 0x22 :: t = w ++ 0x22 :: t') : raw s = w ∧ t = t' := by
  induction s generalizing w with
  | nil =>
    cases w with
    | nil => exact ⟨rfl, (List.cons.inj h).2⟩
    | cons c w =>
      have hc := (List.cons.inj h).1
      exact absurd (hc ▸ List.mem_cons_self) hw.1
  | cons u s ih =>
    rw [raw_cons, List.append_assoc] at h
    cases w with
    | nil =>
      have hhead := congrArg List.head? h
      cases u with
      | plain c hc => exact absurd (by simpa [StrUnit.bytes] using hhead) hc.2.1
      | escape c hc => simp [StrUnit.bytes] at hhead
      | unicode a b c d hc => simp [StrUnit.bytes] at hhead
    | cons e w =>
      have hhead := congrArg List.head? h
      cases u with
      | plain c hc =>
        obtain ⟨rfl, htail⟩ := List.cons.inj h
        obtain ⟨hraw, ht⟩ := ih ⟨fun hmem => hw.1 (List.mem_cons_of_mem _ hmem),
          fun hmem => hw.2 (List.mem_cons_of_mem _ hmem)⟩ htail
        exact ⟨by rw [raw_cons, hraw]; rfl, ht⟩
      | escape c hc =>
        have he : 0x5c = e := by simpa [StrUnit.bytes] using hhead
        exact absurd (he ▸ List.mem_cons_self) hw.2
      | unicode a b c d hc =>
        have he : 0x5c = e := by simpa [StrUnit.bytes] using hhead
        exact absurd (he ▸ List.mem_cons_self) hw.2

/-- A lower case letter or an underscore. -/
def isLetter (c : UInt8) : Bool := (0x61 ≤ c && c ≤ 0x7a) || c == 0x5f

/-- A word of lower case letters and underscores. -/
structure IsWord (w : List UInt8) : Prop where
  nonempty : w ≠ []
  letters : ∀ c ∈ w, isLetter c = true

theorem IsWord.not_mem {w : List UInt8} (h : IsWord w) {c : UInt8} (hc : isLetter c = false) :
    c ∉ w := by
  intro hmem
  rw [h.letters c hmem] at hc
  exact Bool.noConfusion hc

theorem IsWord.plain {w : List UInt8} (h : IsWord w) : 0x22 ∉ w ∧ 0x5c ∉ w :=
  ⟨h.not_mem rfl, h.not_mem rfl⟩

/-- A text in quotes. -/
def inQuotes (w : List UInt8) : List UInt8 := 0x22 :: (w ++ [0x22])

/-- The text `"key":"value"`. -/
def memberText (key value : List UInt8) : List UInt8 := inQuotes key ++ 0x3a :: inQuotes value

theorem memberText_append (key value C : List UInt8) : memberText key value ++ C =
    0x22 :: (key ++ 0x22 :: (0x3a :: 0x22 :: (value ++ 0x22 :: C))) := by
  simp [memberText, inQuotes]

/-- The text `"key"` stands at `i`, as the end of the key of the member. -/
def Place.StandsAt (key : List UInt8) (m : Place) (i : ℕ) : Prop :=
  m.colon = i + (inQuotes key).length

theorem Place.StandsAt.congr {key : List UInt8} {m : Place} {i j : ℕ} (h : m.StandsAt key i)
    (hij : i = j) : m.StandsAt key j := hij ▸ h

/-- The text `"key":"`, at which a string under the key is searched. -/
def keyText (key : List UInt8) : List UInt8 := inQuotes key ++ [0x3a, 0x22]

theorem keyText_append (key D : List UInt8) :
    keyText key ++ D = 0x22 :: (key ++ 0x22 :: (0x3a :: 0x22 :: D)) := by
  simp [keyText, inQuotes]

theorem memberText_eq (key value C : List UInt8) :
    memberText key value ++ C = keyText key ++ (value ++ 0x22 :: C) := by
  rw [memberText_append, keyText_append]

/-- The value is a string. -/
def Value.isString : Value → Bool
  | .str _ => true
  | _ => false

/-- The text of a member with a string ends in the key and the string. -/
def keyed (key : List UInt8) (k : List StrUnit) (v : Value) : Bool :=
  decide (inQuotes key <:+ quoted k) && v.isString

/-- The text of a member ends in `"key":"value"`. -/
def spells (key value : List UInt8) (k : List StrUnit) (v : Value) : Bool :=
  decide (inQuotes key <:+ quoted k) && decide (v.text = inQuotes value)

/-- What may follow a string: nothing, or no letter. -/
def NoLetter (tail : List UInt8) : Prop := ∀ c ∈ tail.head?, isLetter c = false

section Occurrence

variable {key : List UInt8} (hkey : IsWord key)

include hkey

/-- A key that starts in a string behind its opening quote goes on behind it. -/
theorem tail_of_append {s : List StrUnit} {tail A D : List UInt8} (htail : NoLetter tail)
    (h : raw s ++ 0x22 :: tail = A ++ (keyText key ++ D))
    (hlt : A.length < (raw s).length + 1) : tail = 0x3a :: 0x22 :: D := by
  rw [keyText_append] at h
  induction s generalizing A with
  | nil =>
    have hA : A = [] := by simpa [raw] using hlt
    subst hA
    obtain ⟨c, cs, hcons⟩ := List.exists_cons_of_ne_nil hkey.nonempty
    have heq := (List.cons.inj h).2
    rw [hcons] at heq
    have hletter := hkey.letters c (by simp [hcons])
    have hno := htail c (by rw [heq]; rfl)
    rw [hletter] at hno
    exact Bool.noConfusion hno
  | cons u s ih =>
    rw [raw_cons, List.append_assoc] at h
    rw [raw_cons, List.length_append] at hlt
    cases u with
    | plain c hc =>
      cases A with
      | nil => exact absurd (List.cons.inj h).1 hc.2.1
      | cons a A =>
        apply ih (List.cons.inj h).2
        simp only [StrUnit.bytes, List.length_cons, List.length_nil] at hlt
        omega
    | escape c hc =>
      match A with
      | [] => exact absurd (List.cons.inj h).1 (by decide)
      | [a] => exact (raw_eq_of_append hkey.plain (List.cons.inj (List.cons.inj h).2).2).2
      | a :: b :: A =>
        apply ih (List.cons.inj (List.cons.inj h).2).2
        simp only [StrUnit.bytes, List.length_cons, List.length_nil] at hlt
        omega
    | unicode a b c d hc =>
      have hhex : ∀ x, isHex x = true → x ≠ 0x22 := by
        rintro x hx rfl
        exact absurd hx (by decide)
      match A with
      | [] => exact absurd (List.cons.inj h).1 (by decide)
      | [_] => exact absurd (List.cons.inj (List.cons.inj h).2).1 (by decide)
      | [_, _] =>
        exact absurd (List.cons.inj (List.cons.inj (List.cons.inj h).2).2).1 (hhex a hc.1)
      | [_, _, _] =>
        exact absurd (List.cons.inj (List.cons.inj (List.cons.inj (List.cons.inj h).2).2).2).1
          (hhex b hc.2.1)
      | [_, _, _, _] =>
        exact absurd (List.cons.inj (List.cons.inj (List.cons.inj (List.cons.inj
          (List.cons.inj h).2).2).2).2).1 (hhex c hc.2.2.1)
      | [_, _, _, _, _] =>
        exact absurd (List.cons.inj (List.cons.inj (List.cons.inj (List.cons.inj (List.cons.inj
          (List.cons.inj h).2).2).2).2).2).1 (hhex d hc.2.2.2)
      | _ :: _ :: _ :: _ :: _ :: _ :: A =>
        apply ih (List.cons.inj (List.cons.inj (List.cons.inj (List.cons.inj (List.cons.inj
          (List.cons.inj h).2).2).2).2).2).2
        simp only [StrUnit.bytes, List.length_cons, List.length_nil] at hlt
        omega

/-- A key that starts in a string is the end of the string and what follows it. -/
theorem key_of_append {s : List StrUnit} {tail A D : List UInt8} (htail : NoLetter tail)
    (h : quoted s ++ tail = A ++ (keyText key ++ D)) (hlt : A.length < (quoted s).length) :
    quoted s = A ++ inQuotes key ∧ tail = 0x3a :: 0x22 :: D := by
  have hquoted : quoted s ++ tail = 0x22 :: (raw s ++ 0x22 :: tail) := by simp [quoted]
  have htail' : tail = 0x3a :: 0x22 :: D := by
    rw [hquoted] at h
    cases A with
    | nil =>
      rw [keyText_append, List.nil_append] at h
      exact (raw_eq_of_append hkey.plain (List.cons.inj h).2).2
    | cons a A =>
      apply tail_of_append hkey htail (List.cons.inj h).2
      simp only [quoted, List.length_cons, List.length_append, List.length_nil] at hlt
      omega
  have hsame : quoted s ++ tail = (A ++ inQuotes key) ++ tail := by
    rw [h, htail', keyText_append]
    simp [inQuotes]
  exact ⟨List.append_cancel_right hsame, htail'⟩

end Occurrence

/-- No byte of an atom is a quote. -/
theorem IsAtom.not_quote {t : List UInt8} (h : IsAtom t) : 0x22 ∉ t := by
  have hdigits : ∀ {ds : List UInt8}, (∀ c ∈ ds, isDigit c = true) → 0x22 ∉ ds :=
    fun hds hmem => absurd (hds _ hmem) (by decide)
  rcases h with rfl | rfl | rfl | ⟨sign, int, frac, exp, rfl, hsign, ⟨d, ds, -, hint, -⟩,
    hfrac, hexp⟩
  · decide
  · decide
  · decide
  · have hsign' : 0x22 ∉ sign := by rcases hsign with rfl | rfl <;> decide
    have hfrac' : 0x22 ∉ frac := by
      rcases hfrac with rfl | ⟨ds, rfl, -, hds⟩
      · simp
      · simp [hdigits hds]
    have hexp' : 0x22 ∉ exp := by
      rcases hexp with rfl | ⟨e, sign', ds, rfl, he, hsign', -, hds⟩
      · simp
      · have hmark : 0x22 ≠ e := by rcases he with rfl | rfl <;> decide
        have hsign'' : 0x22 ∉ sign' := by rcases hsign' with rfl | rfl | rfl <;> decide
        simp [hmark, hsign'', hdigits hds]
    simp [hsign', hdigits hint, hfrac', hexp']

theorem IsAtom.ne_nil {t : List UInt8} (h : IsAtom t) : t ≠ [] := by
  rcases h with rfl | rfl | rfl | ⟨sign, int, frac, exp, rfl, -, ⟨d, ds, rfl, -⟩, -⟩
  · decide
  · decide
  · decide
  · simp

/-- What may follow a value: nothing, a comma or a closing bracket. -/
def Closed (tail : List UInt8) : Prop := ∀ c ∈ tail.head?, c = 0x2c ∨ c = 0x5d ∨ c = 0x7d

theorem Closed.noLetter {tail : List UInt8} (h : Closed tail) : NoLetter tail := by
  intro c hc
  rcases h c hc with rfl | rfl | rfl <;> rfl

theorem Items.closed_text {tail : List UInt8} (h : Closed tail) (items : Items) :
    Closed (items.text false ++ tail) := by
  cases items with
  | nil => exact h
  | cons v rest =>
    intro c hc
    have heq : 0x2c = c := by simpa [Items.text, comma] using hc
    exact Or.inl heq.symm

theorem Members.closed_text {tail : List UInt8} (h : Closed tail) (members : Members) :
    Closed (members.text false ++ tail) := by
  cases members with
  | nil => exact h
  | cons k v rest =>
    intro c hc
    have heq : 0x2c = c := by simpa [Members.text, comma] using hc
    exact Or.inl heq.symm

/-- A value whose text starts with a plain string is that string. -/
theorem Value.text_eq_of_append {v : Value} {w tail C : List UInt8} (hw : 0x22 ∉ w ∧ 0x5c ∉ w)
    (h : v.text ++ tail = 0x22 :: (w ++ 0x22 :: C)) : v.text = 0x22 :: (w ++ [0x22]) := by
  cases v with
  | atom t ht =>
    exfalso
    obtain ⟨c, cs, rfl⟩ := List.exists_cons_of_ne_nil ht.ne_nil
    have hc : c = 0x22 := (List.cons.inj h).1
    exact ht.not_quote (hc ▸ List.mem_cons_self)
  | str s =>
    rw [Value.text, quoted, List.cons_append, List.append_assoc] at h
    rw [Value.text, quoted, (raw_eq_of_append hw (List.cons.inj h).2).1]
  | arr items => exact absurd (List.cons.inj h).1 (by decide)
  | obj members => exact absurd (List.cons.inj h).1 (by decide)

theorem split_append {x y A B : List UInt8} (h : x ++ y = A ++ B) (hle : x.length ≤ A.length) :
    ∃ A', A = x ++ A' ∧ y = A' ++ B := by
  rcases List.append_eq_append_iff.mp h with ⟨A', hA, hy⟩ | ⟨x', hx, hB⟩
  · exact ⟨A', hA, hy⟩
  · have hlen := congrArg List.length hx
    rw [List.length_append] at hlen
    have hnil : x' = [] := List.eq_nil_of_length_eq_zero (by omega)
    subst hnil
    exact ⟨[], by simpa using hx.symm, by simpa using hB.symm⟩

section Occurrence

variable {key D : List UInt8} {P : List StrUnit → Value → Bool}

/-- The property holds of a member whose key ends so and whose value starts so. -/
def Opens (key D : List UInt8) (P : List StrUnit → Value → Bool) : Prop :=
  ∀ k v tail, inQuotes key <:+ quoted k → v.text ++ tail = 0x22 :: D → P k v = true

/-- A key in an array or an object lies between the brackets. -/
theorem split_brackets {opening closing : UInt8} {body tail A : List UInt8}
    (hopening : opening ≠ 0x22) (hclosing : closing ≠ 0x22)
    (h : opening :: (body ++ [closing]) ++ tail = A ++ (keyText key ++ D))
    (hlt : A.length < (opening :: (body ++ [closing])).length) :
    ∃ B, A = opening :: B ∧ body ++ (closing :: tail) = B ++ (keyText key ++ D) ∧
      B.length < body.length := by
  rw [keyText_append] at h ⊢
  cases A with
  | nil => exact absurd (List.cons.inj h).1 hopening
  | cons a B =>
    obtain ⟨rfl, hrest⟩ := List.cons.inj h
    have hbody : body ++ (closing :: tail) =
        B ++ 0x22 :: (key ++ 0x22 :: (0x3a :: 0x22 :: D)) := by simpa using hrest
    refine ⟨B, rfl, hbody, ?_⟩
    by_contra hge
    obtain ⟨C, rfl, hbehind⟩ := split_append hbody (Nat.not_lt.mp hge)
    simp only [List.length_cons, List.length_append, List.length_nil] at hlt
    obtain rfl : C = [] := List.eq_nil_of_length_eq_zero (by omega)
    exact hclosing (List.cons.inj hbehind).1

/-- A key stands behind the comma of its item or member. -/
theorem split_comma {first : Bool} {x A : List UInt8}
    (h : comma first ++ x = A ++ (keyText key ++ D)) :
    ∃ B, A = comma first ++ B ∧ x = B ++ (keyText key ++ D) := by
  apply split_append h
  cases first with
  | true => simp [comma]
  | false =>
    cases A with
    | nil => exact absurd (List.cons.inj h).1 (by decide)
    | cons a A => simp [comma]

mutual

/-- A key in a value is that of a member of one of its objects. -/
theorem Value.place_of_text (hkey : IsWord key) (hP : Opens key D P) {p : ℕ}
    {tail A : List UInt8} : (v : Value) → Closed tail →
    v.text ++ tail = A ++ (keyText key ++ D) → A.length < v.text.length →
    ∃ m ∈ v.places P p, m.StandsAt key (p + A.length)
  | .atom t ht, _, h, hlt => by
    exfalso
    have hbyte := congrArg (fun l => l[A.length]?) h
    simp only [Value.text] at hbyte hlt
    rw [List.getElem?_append_left hlt, List.getElem?_append_right (le_refl _),
      Nat.sub_self] at hbyte
    exact ht.not_quote (List.mem_of_getElem? hbyte)
  | .str s, htail, h, hlt => by
    exfalso
    obtain ⟨-, rfl⟩ := key_of_append hkey htail.noLetter h hlt
    rcases htail 0x3a rfl with hc | hc | hc <;> exact absurd hc (by decide)
  | .arr items, htail, h, hlt => by
    have hclosed : Closed (0x5d :: tail) := by
      intro c hc
      have heq : 0x5d = c := by simpa using hc
      exact Or.inr (Or.inl heq.symm)
    obtain ⟨A, rfl, hrest, hin⟩ := split_brackets (by decide) (by decide) h hlt
    obtain ⟨m, hm, hpos⟩ := Items.place_of_text hkey hP items hclosed hrest hin
    exact ⟨m, hm, hpos.congr (by rw [List.length_cons]; omega)⟩
  | .obj members, htail, h, hlt => by
    have hclosed : Closed (0x7d :: tail) := by
      intro c hc
      have heq : 0x7d = c := by simpa using hc
      exact Or.inr (Or.inr heq.symm)
    obtain ⟨A, rfl, hrest, hin⟩ := split_brackets (by decide) (by decide) h hlt
    obtain ⟨m, hm, hpos⟩ := Members.place_of_text hkey hP members hclosed hrest hin
    exact ⟨m, hm, hpos.congr (by rw [List.length_cons]; omega)⟩

theorem Items.place_of_text (hkey : IsWord key) (hP : Opens key D P) {p : ℕ}
    {tail A : List UInt8} {first : Bool} : (items : Items) →
    Closed tail → items.text first ++ tail = A ++ (keyText key ++ D) →
    A.length < (items.text first).length →
    ∃ m ∈ items.places P first p, m.StandsAt key (p + A.length)
  | .nil, _, _, hlt => by simp [Items.text] at hlt
  | .cons v rest, htail, h, hlt => by
    rw [Items.text] at h hlt
    rw [List.append_assoc] at h
    obtain ⟨B, rfl, hvalues⟩ := split_comma h
    rw [List.append_assoc] at hvalues
    simp only [List.length_append] at hlt
    by_cases hin : B.length < v.text.length
    · obtain ⟨m, hm, hpos⟩ :=
        Value.place_of_text hkey hP v (Items.closed_text htail rest) hvalues hin
      refine ⟨m, List.mem_append_left _ hm, hpos.congr ?_⟩
      rw [List.length_append]
      omega
    · obtain ⟨D, rfl, hrest⟩ := split_append hvalues (Nat.not_lt.mp hin)
      simp only [List.length_append] at hlt
      obtain ⟨m, hm, hpos⟩ := Items.place_of_text hkey hP rest htail hrest (by omega)
      refine ⟨m, List.mem_append_right _ hm, hpos.congr ?_⟩
      simp only [List.length_append]
      omega

theorem Members.place_of_text (hkey : IsWord key) (hP : Opens key D P) {start p : ℕ}
    {all : Members} {tail A : List UInt8} {first : Bool} : (members : Members) → Closed tail →
    members.text first ++ tail = A ++ (keyText key ++ D) →
    A.length < (members.text first).length →
    ∃ m ∈ Members.places P start all first p members,
      m.StandsAt key (p + A.length)
  | .nil, _, _, hlt => by simp [Members.text] at hlt
  | .cons k v rest, htail, h, hlt => by
    rw [Members.text] at h hlt
    rw [List.append_assoc] at h
    obtain ⟨B, rfl, hkeys⟩ := split_comma h
    rw [List.append_assoc, List.cons_append, List.append_assoc] at hkeys
    simp only [List.length_append, List.length_cons] at hlt
    by_cases hin : B.length < (quoted k).length
    · -- the text starts in the key
      have hcolon : NoLetter (0x3a :: (v.text ++ (rest.text false ++ tail))) := by
        intro c hc
        have heq : 0x3a = c := by simpa using hc
        rw [← heq]
        rfl
      obtain ⟨hname, heq⟩ := key_of_append hkey hcolon hkeys hin
      have hspells : P k v = true :=
        hP k v _ (by rw [hname]; exact List.suffix_append _ _) (List.cons.inj heq).2
      refine ⟨⟨p + (comma first).length, k, start, all⟩, List.mem_append_left _ ?_, ?_⟩
      · rw [if_pos hspells]
        exact List.mem_cons_self
      · simp only [Place.StandsAt, Place.colon, hname, List.length_append]
        omega
    · obtain ⟨D, rfl, hcolon⟩ := split_append hkeys (Nat.not_lt.mp hin)
      simp only [List.length_append] at hlt
      cases D with
      | nil => exact absurd (List.cons.inj hcolon).1 (by decide)
      | cons d D =>
        have hvalues := (List.cons.inj hcolon).2
        simp only [List.length_cons] at hlt
        by_cases hin' : D.length < v.text.length
        · obtain ⟨m, hm, hpos⟩ :=
            Value.place_of_text hkey hP v (Members.closed_text htail rest) hvalues hin'
          refine ⟨m, List.mem_append_right _ (List.mem_append_left _ hm), hpos.congr ?_⟩
          simp only [List.length_append, List.length_cons]
          omega
        · obtain ⟨F, rfl, hrest⟩ := split_append hvalues (Nat.not_lt.mp hin')
          simp only [List.length_append] at hlt
          obtain ⟨m, hm, hpos⟩ := Members.place_of_text hkey hP rest htail hrest (by omega)
          refine ⟨m, List.mem_append_right _ (List.mem_append_right _ hm), hpos.congr ?_⟩
          simp only [List.length_append, List.length_cons]
          omega

end

theorem opens_spells {value : List UInt8} (hvalue : IsWord value) (C : List UInt8) :
    Opens key (value ++ 0x22 :: C) (spells key value) := by
  intro k v tail hk hv
  have htext : v.text = inQuotes value := Value.text_eq_of_append hvalue.plain hv
  simp only [spells, hk, htext, decide_true, Bool.and_self]

theorem opens_keyed (D : List UInt8) : Opens key D (keyed key) := by
  intro k v tail hk hv
  have hstring : v.isString = true := by
    cases v with
    | str s => rfl
    | arr items => exact absurd (List.cons.inj hv).1 (by decide)
    | obj members => exact absurd (List.cons.inj hv).1 (by decide)
    | atom t ht =>
      exfalso
      obtain ⟨c, cs, rfl⟩ := List.exists_cons_of_ne_nil ht.ne_nil
      have hc : c = 0x22 := (List.cons.inj hv).1
      exact ht.not_quote (hc ▸ List.mem_cons_self)
  simp only [keyed, hk, hstring, decide_true, Bool.and_self]

/-- A place whose member spells the text has the text in the value. -/
theorem Value.text_of_place {value : List UInt8} {p : ℕ} {v : Value} {m : Place}
    (h : m ∈ v.places (spells key value) p) : ∃ A C,
    v.text = A ++ (memberText key value ++ C) ∧ m.StandsAt key (p + A.length) ∧
      m.pos ≤ p + A.length := by
  obtain ⟨-, w, pre, post, hspells, htext, hpos⟩ := Value.places_spec v h
  simp only [spells, Bool.and_eq_true, decide_eq_true_eq] at hspells
  obtain ⟨⟨B, hB⟩, hw⟩ := hspells
  refine ⟨pre ++ B, post, ?_, ?_, ?_⟩
  · rw [htext, ← hB, hw]
    simp [memberText]
  · simp only [Place.StandsAt, Place.colon, hpos, ← hB, List.length_append]
    omega
  · rw [hpos, List.length_append]
    omega

/-- A place with a string under a key has the key in the value, and its string goes on to a
closing quote. -/
theorem Value.text_of_keyed {p : ℕ} {v : Value} {m : Place} (h : m ∈ v.places (keyed key) p) :
    ∃ A s C, v.text = A ++ (keyText key ++ (raw s ++ 0x22 :: C)) ∧
      m.StandsAt key (p + A.length) := by
  obtain ⟨-, w, pre, post, hkeyed, htext, hpos⟩ := Value.places_spec v h
  simp only [keyed, Bool.and_eq_true, decide_eq_true_eq] at hkeyed
  obtain ⟨⟨B, hB⟩, hw⟩ := hkeyed
  cases w with
  | str s =>
    refine ⟨pre ++ B, s, post, ?_, ?_⟩
    · rw [htext, ← hB, Value.text, quoted]
      simp [keyText]
    · simp only [Place.StandsAt, Place.colon, hpos, ← hB, List.length_append]
      omega
  | atom t ht => exact absurd hw (by simp [Value.isString])
  | arr items => exact absurd hw (by simp [Value.isString])
  | obj members => exact absurd hw (by simp [Value.isString])

end Occurrence

end Faceplate.Json
