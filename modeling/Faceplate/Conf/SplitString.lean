import Faceplate.Conf.Grab
import Faceplate.Conf.SplitCommand

/-!
# The two passes of `shl_split_string`

Lists in the configuration are split at a separator. As for words, a first pass counts the
parts and their bytes and a second one writes them into memory of that size, with counters
of type `unsigned int`; empty parts are kept or dropped. The list that both have to agree
on is `shlSplitString`.
-/

namespace Faceplate.Conf

open CString Loops Writes

section Passes

variable (arg : List UInt8) (sep : UInt8) (keepEmpty : Bool)

/-- The first loop: the place in the string, and what is counted. -/
structure PartCount where
  i : ℕ
  tally : Tally

/-- A part is counted with its NUL. -/
def Tally.addPart (t : Tally) : Tally := ⟨u32 (t.num + 1), 0, u32 (t.size + u32 (t.len + 1))⟩

/-- One round of the first loop. -/
def countPart (s : PartCount) : Round PartCount Fault :=
  match arg[s.i]? with
  | none => .fail .outside
  | some c =>
    if c = 0 then .stop s
    else if c ≠ sep then .next ⟨u32 (s.i + 1), s.tally.grow⟩
    else if keepEmpty || s.tally.len > 0 then .next ⟨u32 (s.i + 1), s.tally.addPart⟩
    else .next ⟨u32 (s.i + 1), s.tally⟩

/-- The part behind the last separator, after the first loop. -/
def PartCount.close (s : PartCount) : Tally :=
  if s.tally.len > 0 ∨ keepEmpty ∧ (s.i = 0 ∨ arg[s.i - 1]? = some sep) then s.tally.addPart
  else s.tally

/-- The second loop: the place in the string, the next entry, the place behind the bytes
that are written, whether the inner loop is running, and the memory, each cell of it nothing
before it is written. -/
structure PartLayout where
  i : ℕ
  pos : ℕ
  off : ℕ
  inPart : Bool
  list : List (Option (Option ℕ))
  bytes : List (Option UInt8)

/-- Something is written, or the write is outside of the memory. -/
def orOutside {α σ : Type} (mem : Option α) (next : α → σ) : Round σ Fault :=
  match mem with
  | none => .fail .outside
  | some mem => .next (next mem)

/-- One round of the second loop, which sets the next entry, or of the loop inside of it,
which copies a byte and at the end of a part leaves it to the next round of the other. -/
def writePart (num : ℕ) (s : PartLayout) : Round PartLayout Fault :=
  if s.inPart then
    match arg[s.i]? with
    | none => .fail .outside
    | some c =>
      if c ≠ 0 ∧ c ≠ sep then
        orOutside (write s.bytes s.off (some c)) fun bytes =>
          { s with i := u32 (s.i + 1), off := s.off + 1, bytes := bytes }
      else
        let i := if c ≠ 0 then u32 (s.i + 1) else s.i
        if s.list[s.pos]? = some (some (some s.off)) ∧ keepEmpty = false then
          .next { s with i := i, inPart := false }
        else
          orOutside (write s.bytes s.off (some 0)) fun bytes =>
            { s with i := i, pos := u32 (s.pos + 1), off := s.off + 1, inPart := false,
                     bytes := bytes }
  else if s.pos < num then
    orOutside (write s.list s.pos (some (some s.off))) fun list =>
      { s with inPart := true, list := list }
  else .stop s

end Passes

/-- `shl_split_string`, if both loops end within some number of rounds. The memory is
there. -/
def splitString (arg : CString.Str) (sep : UInt8) (keepEmpty : Bool) (fuel : ℕ) :
    Option (Except Fault CommandList) :=
  if sep = 0 then some (.error .invalid)
  else
    match rounds (countPart arg.terminated sep keepEmpty) fuel ⟨0, 0, 0, 0⟩ with
    | .next _ => none
    | .fail e => some (.error e)
    | .stop s =>
      let t := s.close arg.terminated sep keepEmpty
      let start := ⟨0, 0, 0, false, List.replicate (u32 (t.num + 1)) none,
        List.replicate t.size none⟩
      match rounds (writePart arg.terminated sep keepEmpty t.num) fuel start with
      | .next _ => none
      | .fail e => some (.error e)
      | .stop w =>
        match write w.list w.pos (some none) with
        | none => some (.error .outside)
        | some list => some (.ok ⟨t.num, list, w.bytes⟩)

/-! ## The parts of a text -/

section Parts

variable {sep : UInt8} {keepEmpty : Bool}

/-- The parts of a text when some bytes of the first one have been read. -/
def partsFrom (sep : UInt8) (keepEmpty : Bool) (word text : Str) : List Str :=
  ((text.splitOn sep).modifyHead (word ++ ·)).filter fun part => keepEmpty || part != []

theorem partsFrom_nil_left (text : Str) :
    partsFrom sep keepEmpty [] text = shlSplitString text sep keepEmpty := by
  obtain ⟨first, others, h⟩ := List.exists_cons_of_ne_nil (List.splitOn_ne_nil sep text)
  rw [partsFrom, shlSplitString, h, List.modifyHead_cons, List.nil_append]

theorem partsFrom_nil (word : Str) :
    partsFrom sep keepEmpty word [] = [word].filter fun part => keepEmpty || part != [] := by
  rw [partsFrom, List.splitOn_nil, List.modifyHead_cons, List.append_nil]

/-- A separator ends the first part. -/
theorem partsFrom_sep (word text : Str) :
    partsFrom sep keepEmpty word (sep :: text) =
      partsFrom sep keepEmpty word [] ++ partsFrom sep keepEmpty [] text := by
  rw [partsFrom_nil, partsFrom_nil_left, partsFrom, shlSplitString,
    List.splitOn_cons_eq_if_modifyHead, beq_self_eq_true, if_pos rfl, List.modifyHead_cons,
    List.append_nil, List.filter_cons, List.filter_cons]
  split_ifs <;> rfl

/-- Any other byte belongs to it. -/
theorem partsFrom_cons {c : UInt8} (hc : c ≠ sep) (word text : Str) :
    partsFrom sep keepEmpty word (c :: text) = partsFrom sep keepEmpty (word ++ [c]) text := by
  obtain ⟨first, others, h⟩ := List.exists_cons_of_ne_nil (List.splitOn_ne_nil sep text)
  have hne : ¬ (c == sep) = true := by simpa using hc
  rw [partsFrom, partsFrom, List.splitOn_cons_eq_if_modifyHead, if_neg hne, h,
    List.modifyHead_cons, List.modifyHead_cons, List.modifyHead_cons, List.append_assoc]
  rfl

end Parts

/-! ## What is counted -/

/-- The counts behind some parts and in the middle of another one. -/
def Tally.behind (done : List Str) (word : Str) : Tally :=
  ⟨done.length, word.length, wordsSize done⟩

theorem Tally.addPart_behind {done : List Str} {word : Str}
    (h : wordsSize (done ++ [word]) < 2 ^ 32) :
    (Tally.behind done word).addPart = Tally.behind (done ++ [word]) [] := by
  have hnum := length_le_wordsSize done
  rw [wordsSize_append, wordsSize_singleton] at h
  simp only [addPart, behind, u32_of_lt (by omega : done.length + 1 < 2 ^ 32),
    u32_of_lt (by omega : word.length + 1 < 2 ^ 32), u32_of_lt h, wordsSize_append,
    wordsSize_singleton, List.length_append, List.length_singleton, List.length_nil]

section Spec

variable {sep : UInt8} {keepEmpty : Bool}

theorem partsFrom_kept {word : Str} (h : keepEmpty = true ∨ word ≠ []) :
    partsFrom sep keepEmpty word [] = [word] := by
  rw [partsFrom_nil]
  rcases h with rfl | h
  · rfl
  · simp [h]

/-- A part that is kept has all bytes that have been read. -/
theorem length_lt_partsFrom {word : Str} (h : keepEmpty = true ∨ word ≠ []) (text : Str) :
    word.length < wordsSize (partsFrom sep keepEmpty word text) := by
  induction text generalizing word with
  | nil =>
    rw [partsFrom_kept h, wordsSize_singleton]
    exact Nat.lt_succ_self _
  | cons c text ih =>
    by_cases hsep : c = sep
    · subst hsep
      rw [partsFrom_sep, partsFrom_kept h, wordsSize_append, wordsSize_singleton]
      omega
    · rw [partsFrom_cons hsep]
      have hlonger := ih (.inr (List.concat_ne_nil c word))
      rw [List.length_append, List.length_singleton] at hlonger
      omega

theorem partsFrom_dropped : partsFrom sep false [] [] = [] := rfl

variable {arg : CString.Str} (hlength : arg.bytes.length < 2 ^ 32)

include hlength

/-- The first loop counts the parts and their bytes. -/
theorem countPart_spec (text : Str) {i : ℕ} (hdrop : arg.bytes.drop i = text)
    (hi : i ≤ arg.bytes.length) (done : List Str) (word : Str) (hword : word.length ≤ i)
    (hstart : word = [] ↔ i = 0 ∨ arg.terminated[i - 1]? = some sep)
    (hsize : wordsSize (done ++ partsFrom sep keepEmpty word text) < 2 ^ 32) :
    ∃ s, Ends (countPart arg.terminated sep keepEmpty) ⟨i, .behind done word⟩ (.stop s) ∧
      s.close arg.terminated sep keepEmpty =
        .behind (done ++ partsFrom sep keepEmpty word text) [] := by
  induction text generalizing i done word with
  | nil =>
    obtain ⟨rfl, hnul⟩ := drop_nil hdrop hi
    refine ⟨⟨arg.bytes.length, .behind done word⟩, .of_round ?_ trivial, ?_⟩
    · simp only [countPart, hnul]
      rfl
    · by_cases hkept : keepEmpty = true ∨ word ≠ []
      · rw [partsFrom_kept hkept] at hsize ⊢
        have hcond : (Tally.behind done word).len > 0 ∨
            keepEmpty = true ∧ (arg.bytes.length = 0 ∨
              arg.terminated[arg.bytes.length - 1]? = some sep) := by
          by_cases hempty : word = []
          · exact .inr ⟨hkept.resolve_right (not_not.mpr hempty), hstart.mp hempty⟩
          · exact .inl (List.length_pos_of_ne_nil hempty)
        rw [PartCount.close, if_pos hcond]
        exact Tally.addPart_behind hsize
      · obtain ⟨hkeep, hempty⟩ := not_or.mp hkept
        obtain rfl := not_not.mp hempty
        obtain rfl := Bool.not_eq_true _ ▸ hkeep
        rw [partsFrom_dropped, List.append_nil, PartCount.close, if_neg]
        rintro (hpos | ⟨hkeep, -⟩)
        · exact absurd hpos (Nat.lt_irrefl 0)
        · cases hkeep
  | cons c text ih =>
    obtain ⟨hget, hc, hrest, hi'⟩ := drop_cons hdrop
    have hnext : u32 (i + 1) = i + 1 := u32_of_lt (by omega)
    by_cases hsep : c = sep
    · subst hsep
      have hstart' : ([] : Str) = [] ↔ i + 1 = 0 ∨ arg.terminated[i + 1 - 1]? = some c :=
        ⟨fun _ => .inr hget, fun _ => rfl⟩
      rw [partsFrom_sep, ← List.append_assoc] at hsize ⊢
      obtain ⟨s, hends, hclose⟩ := ih hrest hi' _ [] (Nat.zero_le _) hstart' hsize
      refine ⟨s, .of_next ?_ hends, hclose⟩
      by_cases hkept : keepEmpty = true ∨ word ≠ []
      · rw [partsFrom_kept hkept] at hsize ⊢
        rw [wordsSize_append] at hsize
        have hcond : (keepEmpty || (Tally.behind done word).len > 0) = true := by
          rcases hkept with rfl | hne
          · rfl
          · simpa [Tally.behind, Nat.pos_iff_ne_zero] using .inr hne
        simp only [countPart, hget, if_neg hc, ne_eq, not_true_eq_false, if_false, hnext,
          if_pos hcond, Tally.addPart_behind (Nat.lt_of_le_of_lt (Nat.le_add_right _ _) hsize)]
      · obtain ⟨hkeep, hempty⟩ := not_or.mp hkept
        obtain rfl := not_not.mp hempty
        obtain rfl := Bool.not_eq_true _ ▸ hkeep
        rw [partsFrom_dropped, List.append_nil]
        simp only [countPart, hget, if_neg hc, ne_eq, not_true_eq_false, if_false, hnext]
        rfl
    · have hstart' : word ++ [c] = [] ↔ i + 1 = 0 ∨ arg.terminated[i + 1 - 1]? = some sep := by
        rw [Nat.add_sub_cancel, hget]
        simp [hsep]
      have hword' : (word ++ [c]).length ≤ i + 1 := by
        rw [List.length_append, List.length_singleton]
        omega
      rw [partsFrom_cons hsep] at hsize ⊢
      obtain ⟨s, hends, hclose⟩ := ih hrest hi' done (word ++ [c]) hword' hstart' hsize
      refine ⟨s, .of_next ?_ hends, hclose⟩
      have hgrow : (Tally.behind done word).grow = .behind done (word ++ [c]) := by
        have hlen : u32 (word.length + 1) = word.length + 1 := u32_of_lt (by omega)
        simp only [Tally.grow, Tally.behind, hlen, List.length_append, List.length_singleton]
      simp only [countPart, hget, if_neg hc, ne_eq, hsep, not_false_eq_true, if_true, hnext, hgrow]

end Spec

/-! ## What is written -/

namespace PartLayout

/-- The second pass behind some parts and in the middle of another one. The next entry may
already have been set. -/
def behind (num size i : ℕ) (done : List Str) (word : Str) (inPart : Bool)
    (entry : Option (Option ℕ)) : PartLayout where
  i := i
  pos := done.length
  off := wordsSize done + word.length
  inPart := inPart
  list := ((offsets 0 done).map some).map some ++
    entry :: List.replicate (num - done.length) none
  bytes := filled size (wordsBytes done ++ word)

variable {arg : CString.Str} {sep : UInt8} {keepEmpty : Bool} {num size i : ℕ}
  {done : List Str} {word : Str}

theorem length_entries (done : List Str) :
    (((offsets 0 done).map some).map some : List (Option (Option ℕ))).length = done.length := by
  rw [List.length_map, List.length_map, length_offsets]

/-- The next entry is set. -/
theorem writePart_head (hpos : done.length < num) (entry : Option (Option ℕ)) :
    writePart arg.terminated sep keepEmpty num (behind num size i done [] false entry) =
      .next (behind num size i done [] true (some (some (wordsSize done)))) := by
  have hwrite := write_append (((offsets 0 done).map some).map some)
    (List.replicate (num - done.length) none) entry (some (some (wordsSize done)))
  rw [length_entries] at hwrite
  simp only [writePart, behind, Bool.false_eq_true, if_false, if_pos hpos, List.length_nil,
    Nat.add_zero, hwrite, orOutside]

/-- All parts are written. -/
theorem writePart_stop (hpos : done.length = num) (entry : Option (Option ℕ)) :
    writePart arg.terminated sep keepEmpty num (behind num size i done [] false entry) =
      .stop (behind num size i done [] false entry) := by
  simp only [writePart, behind, Bool.false_eq_true, if_false, hpos, Nat.lt_irrefl]

/-- A byte of a part is copied. -/
theorem writePart_byte {c : UInt8} (hget : arg.terminated[i]? = some c) (hc : c ≠ 0)
    (hsep : c ≠ sep) (hnext : u32 (i + 1) = i + 1)
    (hoff : wordsSize done + word.length < size) (entry : Option (Option ℕ)) :
    writePart arg.terminated sep keepEmpty num (behind num size i done word true entry) =
      .next (behind num size (i + 1) done (word ++ [c]) true entry) := by
  simp only [writePart, behind, if_true, hget, ne_eq, hc, hsep, not_false_eq_true, and_self,
    Layout.write_byte c hoff, orOutside, hnext, List.length_append, List.length_singleton,
    Nat.add_assoc]

/-- The place behind the end of a part. -/
def next (i : ℕ) (c : UInt8) : ℕ := if c ≠ 0 then u32 (i + 1) else i

/-- Whether a part that ends is dropped: nothing has been copied, and empty parts are not
kept. -/
def Drops (keepEmpty : Bool) (s : PartLayout) : Prop :=
  s.list[s.pos]? = some (some (some s.off)) ∧ keepEmpty = false

theorem writePart_of_not_drops {s : PartLayout} {c : UInt8} {bytes : List (Option UInt8)}
    (hin : s.inPart = true) (hget : arg.terminated[s.i]? = some c) (hend : ¬ (c ≠ 0 ∧ c ≠ sep))
    (hdrops : ¬ s.Drops keepEmpty) (hnul : write s.bytes s.off (some 0) = some bytes) :
    writePart arg.terminated sep keepEmpty num s =
      .next ⟨next s.i c, u32 (s.pos + 1), s.off + 1, false, s.list, bytes⟩ := by
  simp only [writePart, if_pos hin, hget, if_neg hend]
  refine (if_neg hdrops).trans ?_
  rw [hnul]
  rfl

theorem writePart_of_drops {s : PartLayout} {c : UInt8} (hin : s.inPart = true)
    (hget : arg.terminated[s.i]? = some c) (hend : ¬ (c ≠ 0 ∧ c ≠ sep))
    (hdrops : s.Drops keepEmpty) :
    writePart arg.terminated sep keepEmpty num s =
      .next { s with i := next s.i c, inPart := false } := by
  simp only [writePart, if_pos hin, hget, if_neg hend]
  exact if_pos hdrops

/-- The next entry points to the part that is being written. -/
theorem drops_behind_iff : (behind num size i done word true (some (some (wordsSize done)))).Drops
    keepEmpty ↔ word = [] ∧ keepEmpty = false := by
  have hget : (behind num size i done word true (some (some (wordsSize done)))).list[done.length]? =
      some (some (some (wordsSize done))) := by
    rw [behind, List.getElem?_append_right (by rw [length_entries]), length_entries,
      Nat.sub_self, List.getElem?_cons_zero]
  have hoff : (some (some (some (wordsSize done))) =
      some (some (some (wordsSize done + word.length)))) ↔ word = [] := by
    simp [List.length_eq_zero_iff]
  exact and_congr_left' (hget ▸ hoff)

/-- A part that is kept ends. -/
theorem writePart_kept {c : UInt8} (hget : arg.terminated[i]? = some c)
    (hend : ¬ (c ≠ 0 ∧ c ≠ sep)) (hkept : keepEmpty = true ∨ word ≠ []) (hpos : done.length < num)
    (hnum : num < 2 ^ 32) (hoff : wordsSize done + word.length < size) :
    writePart arg.terminated sep keepEmpty num
        (behind num size i done word true (some (some (wordsSize done)))) =
      .next (behind num size (next i c) (done ++ [word]) [] false none) := by
  have hdrops : ¬ (behind num size i done word true (some (some (wordsSize done)))).Drops
      keepEmpty := by
    rw [drops_behind_iff]
    rintro ⟨hempty, hkeep⟩
    rcases hkept with hkept | hkept
    · rw [hkeep] at hkept
      cases hkept
    · exact hkept hempty
  have hrest : List.replicate (num - done.length) (none : Option (Option ℕ)) =
      none :: List.replicate (num - (done.length + 1)) none := by
    rw [← List.replicate_succ]
    congr 1
    omega
  have hlist : (behind num size i done word true (some (some (wordsSize done)))).list =
      (behind num size i (done ++ [word]) [] false none).list := by
    simp only [behind, offsets_concat, Nat.zero_add, List.map_append, List.append_assoc,
      List.length_append, List.length_singleton, hrest]
    rfl
  have hpos' : u32 (done.length + 1) = done.length + 1 := u32_of_lt (by omega)
  refine (writePart_of_not_drops rfl hget hend hdrops (Layout.write_nul hoff)).trans ?_
  rw [hlist]
  simp only [behind, hpos', wordsSize_append, wordsSize_singleton, List.length_append,
    List.length_singleton, List.length_nil, Nat.add_zero, Nat.add_assoc, List.append_nil]

/-- An empty part is dropped. -/
theorem writePart_dropped {c : UInt8} (hget : arg.terminated[i]? = some c)
    (hend : ¬ (c ≠ 0 ∧ c ≠ sep)) :
    writePart arg.terminated sep false num
        (behind num size i done [] true (some (some (wordsSize done)))) =
      .next (behind num size (next i c) done [] false (some (some (wordsSize done)))) :=
  writePart_of_drops rfl hget hend (drops_behind_iff.mpr ⟨rfl, rfl⟩)

/-! ### The whole pass -/

/-- From within a part on, the second loop writes it and the parts behind it. -/
theorem writePart_spec (hlength : arg.bytes.length < 2 ^ 32) (hnum32 : num < 2 ^ 32) (text : Str)
    (hdrop : arg.bytes.drop i = text) (hi : i ≤ arg.bytes.length)
    (hnum : (done ++ partsFrom sep keepEmpty word text).length = num)
    (hsize : wordsSize (done ++ partsFrom sep keepEmpty word text) = size)
    (hmore : partsFrom sep keepEmpty word text ≠ []) :
    ∃ j, Ends (writePart arg.terminated sep keepEmpty num)
      (behind num size i done word true (some (some (wordsSize done))))
      (.stop (behind num size j (done ++ partsFrom sep keepEmpty word text) [] false none)) := by
  induction text generalizing i done word with
  | nil =>
    obtain ⟨rfl, hnul⟩ := drop_nil hdrop hi
    have hkept : keepEmpty = true ∨ word ≠ [] := by
      by_contra hnot
      obtain ⟨hkeep, hempty⟩ := not_or.mp hnot
      obtain rfl := not_not.mp hempty
      obtain rfl := Bool.not_eq_true _ ▸ hkeep
      exact hmore partsFrom_dropped
    rw [partsFrom_kept hkept] at hnum hsize ⊢
    rw [List.length_append, List.length_singleton] at hnum
    rw [wordsSize_append, wordsSize_singleton] at hsize
    refine ⟨next arg.bytes.length 0,
      .of_next (writePart_kept hnul (by simp) hkept (by omega) hnum32 (by omega)) ?_⟩
    refine .of_round (writePart_stop ?_ none) trivial
    rw [List.length_append, List.length_singleton, hnum]
  | cons c text ih =>
    obtain ⟨hget, hc, hrest, hi'⟩ := drop_cons hdrop
    have hnext : u32 (i + 1) = i + 1 := u32_of_lt (by omega)
    by_cases hsep : c = sep
    · subst hsep
      have hplace : next i c = i + 1 := by rw [next, if_pos hc, hnext]
      have hend : ¬ (c ≠ 0 ∧ c ≠ c) := fun h => h.2 rfl
      rw [partsFrom_sep] at hnum hsize hmore ⊢
      by_cases hkept : keepEmpty = true ∨ word ≠ []
      · rw [partsFrom_kept hkept, ← List.append_assoc] at hnum hsize ⊢
        have hround := @writePart_kept arg c keepEmpty num size i done word c hget hend hkept
          (by simp only [List.length_append, List.length_singleton] at hnum; omega) hnum32
          (by simp only [wordsSize_append, wordsSize_singleton] at hsize; omega)
        rw [hplace] at hround
        by_cases hparts : partsFrom c keepEmpty [] text = []
        · refine ⟨i + 1, .of_next hround (.of_round ?_ trivial)⟩
          rw [hparts, List.append_nil] at hnum ⊢
          exact writePart_stop hnum none
        · obtain ⟨j, hends⟩ := ih hrest hi' hnum hsize hparts
          refine ⟨j, .of_next hround (.of_next (writePart_head ?_ none) hends)⟩
          have hpos := List.length_pos_of_ne_nil hparts
          rw [List.length_append] at hnum
          omega
      · obtain ⟨hkeep, hempty⟩ := not_or.mp hkept
        obtain rfl := not_not.mp hempty
        obtain rfl := Bool.not_eq_true _ ▸ hkeep
        rw [partsFrom_dropped, List.nil_append] at hnum hsize hmore ⊢
        have hround := @writePart_dropped arg c num size i done c hget hend
        rw [hplace] at hround
        obtain ⟨j, hends⟩ := ih hrest hi' hnum hsize hmore
        refine ⟨j, .of_next hround (.of_next (writePart_head ?_ _) hends)⟩
        have hpos := List.length_pos_of_ne_nil hmore
        rw [List.length_append] at hnum
        omega
    · rw [partsFrom_cons hsep] at hnum hsize hmore ⊢
      obtain ⟨j, hends⟩ := ih hrest hi' hnum hsize hmore
      have hoff : wordsSize done + word.length < size := by
        have hfirst := @length_lt_partsFrom sep keepEmpty _ (.inr (List.concat_ne_nil c word)) text
        rw [List.length_append, List.length_singleton] at hfirst
        rw [wordsSize_append] at hsize
        omega
      exact ⟨j, .of_next (writePart_byte hget hc hsep hnext hoff _) hends⟩

end PartLayout

/-! ## What every run keeps -/

section Runs

variable {sep : UInt8} {keepEmpty : Bool}

theorem Tally.addPart_size_lt (t : Tally) : t.addPart.size < 2 ^ 32 := u32_lt _

theorem countPart_holds (arg : List UInt8) (s : PartCount) (h : s.tally.size < 2 ^ 32) :
    (countPart arg sep keepEmpty s).Holds fun s => s.tally.size < 2 ^ 32 := by
  unfold countPart
  split
  · trivial
  · split_ifs
    · exact h
    · exact h
    · exact Tally.addPart_size_lt _
    · exact h

theorem PartCount.close_size_lt (arg : List UInt8) {s : PartCount} (h : s.tally.size < 2 ^ 32) :
    (s.close arg sep keepEmpty).size < 2 ^ 32 := by
  unfold close
  split_ifs
  · exact Tally.addPart_size_lt _
  · exact h

/-- The two parts of the memory keep their sizes. -/
def PartLayout.Sized (entries size : ℕ) (s : PartLayout) : Prop :=
  s.list.length = entries ∧ s.bytes.length = size

theorem orOutside_holds {α σ : Type} {inv : σ → Prop} {mem : Option α} {next : α → σ}
    (h : ∀ m, mem = some m → inv (next m)) : (orOutside mem next).Holds inv := by
  cases mem with
  | none => trivial
  | some m => exact h m rfl

theorem writePart_holds (entries size num : ℕ) (arg : List UInt8) (s : PartLayout)
    (h : s.Sized entries size) :
    (writePart arg sep keepEmpty num s).Holds (PartLayout.Sized entries size) := by
  by_cases hin : s.inPart = true
  · rw [writePart, if_pos hin]
    cases arg[s.i]? with
    | none => trivial
    | some c =>
      by_cases hbyte : c ≠ 0 ∧ c ≠ sep
      · simp only [if_pos hbyte]
        exact orOutside_holds fun bytes hbytes => ⟨h.1, (length_write hbytes).trans h.2⟩
      · simp only [if_neg hbyte]
        by_cases hdrops : s.Drops keepEmpty
        · exact (if_pos hdrops).symm ▸ h
        · refine (if_neg hdrops).symm ▸ ?_
          exact orOutside_holds fun bytes hbytes => ⟨h.1, (length_write hbytes).trans h.2⟩
  · rw [writePart, if_neg hin]
    by_cases hpos : s.pos < num
    · rw [if_pos hpos]
      exact orOutside_holds fun list hlist => ⟨(length_write hlist).trans h.1, h.2⟩
    · rw [if_neg hpos]
      exact h

/-- Neither the entries nor the bytes of a list ever number 2^32. -/
theorem length_splitString {arg : CString.Str} {fuel : ℕ} {list : CommandList}
    (h : splitString arg sep keepEmpty fuel = some (.ok list)) :
    list.list.length < 2 ^ 32 ∧ list.bytes.length < 2 ^ 32 := by
  unfold splitString at h
  split_ifs at h with hsep
  · cases h
  have hcount := rounds_holds _ (@countPart_holds sep keepEmpty arg.terminated) fuel
    (s := ⟨0, 0, 0, 0⟩) (by decide)
  cases hfirst : rounds (countPart arg.terminated sep keepEmpty) fuel ⟨0, 0, 0, 0⟩ with
  | next s =>
    rw [hfirst] at h
    cases h
  | fail e =>
    rw [hfirst] at h
    cases h
  | stop s =>
    rw [hfirst] at h hcount
    dsimp only at h
    have hsize := @PartCount.close_size_lt sep keepEmpty arg.terminated s hcount
    set t := s.close arg.terminated sep keepEmpty
    have hwrite := rounds_holds _
      (@writePart_holds sep keepEmpty (u32 (t.num + 1)) t.size t.num arg.terminated) fuel
      (s := ⟨0, 0, 0, false, List.replicate (u32 (t.num + 1)) none, List.replicate t.size none⟩)
      ⟨List.length_replicate, List.length_replicate⟩
    cases hsecond : rounds (writePart arg.terminated sep keepEmpty t.num) fuel
        ⟨0, 0, 0, false, List.replicate (u32 (t.num + 1)) none,
          List.replicate t.size none⟩ with
    | next w =>
      rw [hsecond] at h
      cases h
    | fail e =>
      rw [hsecond] at h
      cases h
    | stop w =>
      rw [hsecond] at h hwrite
      dsimp only at h
      cases hlast : write w.list w.pos (some none) with
      | none =>
        rw [hlast] at h
        cases h
      | some entries =>
        rw [hlast] at h
        obtain rfl := Except.ok.inj (Option.some.inj h)
        have hentries : entries.length = u32 (t.num + 1) := (length_write hlast).trans hwrite.1
        have hbytes : w.bytes.length = t.size := hwrite.2
        constructor
        · change entries.length < 2 ^ 32
          rw [hentries]
          exact u32_lt _
        · change w.bytes.length < 2 ^ 32
          rw [hbytes]
          exact hsize

/-- A string of at least 4 GiB is counted forever. -/
theorem splitString_eq_none {arg : CString.Str} (hlength : 2 ^ 32 ≤ arg.bytes.length)
    (hsep : sep ≠ 0) (fuel : ℕ) : splitString arg sep keepEmpty fuel = none := by
  have hstep : ∀ s : PartCount, s.i < 2 ^ 32 →
      ∃ s', countPart arg.terminated sep keepEmpty s = .next s' ∧ s'.i < 2 ^ 32 := by
    intro s hs
    obtain ⟨c, text, hdrop⟩ : ∃ c text, arg.bytes.drop s.i = c :: text :=
      List.exists_cons_of_ne_nil (by
        rw [ne_eq, List.drop_eq_nil_iff]
        omega)
    obtain ⟨hget, hc, -⟩ := drop_cons hdrop
    simp only [countPart, hget, if_neg hc]
    split_ifs
    · exact ⟨_, rfl, u32_lt _⟩
    · exact ⟨_, rfl, u32_lt _⟩
    · exact ⟨_, rfl, u32_lt _⟩
  obtain ⟨s', hs', -⟩ := rounds_running (fun s : PartCount => s.i < 2 ^ 32) hstep fuel
    (s := ⟨0, 0, 0, 0⟩) (by decide)
  rw [splitString, if_neg hsep, hs']

end Runs

/-! ## The function -/

section Split

variable {arg : CString.Str} {sep : UInt8} {keepEmpty : Bool}

/-- The counters are large enough for the string, for its parts with a NUL each, and for
their entries with the last one. -/
def PartsFit (arg : CString.Str) (sep : UInt8) (keepEmpty : Bool) : Prop :=
  arg.bytes.length < 2 ^ 32 ∧ wordsSize (shlSplitString arg.bytes sep keepEmpty) < 2 ^ 32 ∧
    (shlSplitString arg.bytes sep keepEmpty).length + 1 < 2 ^ 32

/-- The list of the parts between separators is written, filled exactly and ended by `NULL`;
without a separator the call is refused. -/
def SplitsAtSeparators (arg : CString.Str) (sep : UInt8) (keepEmpty : Bool) : Prop :=
  if sep = 0 then ∀ fuel, splitString arg sep keepEmpty fuel = some (.error .invalid)
  else ∃ fuel, splitString arg sep keepEmpty fuel =
    some (.ok (.ofWords (shlSplitString arg.bytes sep keepEmpty)))

/-- With counters that are large enough both passes agree. -/
theorem splitString_of_fit (hsep : sep ≠ 0) (h : PartsFit arg sep keepEmpty) :
    ∃ fuel, splitString arg sep keepEmpty fuel =
      some (.ok (.ofWords (shlSplitString arg.bytes sep keepEmpty))) := by
  obtain ⟨hlength, hsize, hnum⟩ := h
  rw [← partsFrom_nil_left] at hsize hnum ⊢
  set parts := partsFrom sep keepEmpty [] arg.bytes with hparts
  -- the first pass counts
  obtain ⟨s, hfirst, hclose⟩ := @countPart_spec sep keepEmpty arg hlength arg.bytes 0
    List.drop_zero (Nat.zero_le _) [] [] (Nat.zero_le _) (by simp) hsize
  rw [List.nil_append, ← hparts] at hclose
  -- the second one writes
  have hsecond : ∃ j, Ends (writePart arg.terminated sep keepEmpty parts.length)
      (.behind parts.length (wordsSize parts) 0 [] [] false none)
      (.stop (.behind parts.length (wordsSize parts) j parts [] false none)) := by
    by_cases hnone : parts = []
    · refine ⟨0, .of_round ?_ trivial⟩
      rw [hnone]
      exact PartLayout.writePart_stop rfl none
    · obtain ⟨j, hends⟩ := @PartLayout.writePart_spec arg sep keepEmpty parts.length
        (wordsSize parts) 0 [] [] hlength (by omega) arg.bytes List.drop_zero (Nat.zero_le _) rfl
        rfl hnone
      exact ⟨j, .of_next (PartLayout.writePart_head (List.length_pos_of_ne_nil hnone) none) hends⟩
  obtain ⟨j, hsecond⟩ := hsecond
  obtain ⟨n, hn⟩ := hfirst.eventually
  obtain ⟨m, hm⟩ := hsecond.eventually
  refine ⟨max n m, ?_⟩
  have hstart : PartLayout.behind parts.length (wordsSize parts) 0 [] [] false none =
      ⟨0, 0, 0, false, List.replicate (u32 (parts.length + 1)) none,
        List.replicate (wordsSize parts) none⟩ := by
    rw [u32_of_lt hnum]
    rfl
  have hcounted := hn (max n m) (Nat.le_max_left n m)
  have hwritten := hm (max n m) (Nat.le_max_right n m)
  have hzero : (⟨0, .behind [] []⟩ : PartCount) = ⟨0, 0, 0, 0⟩ := rfl
  rw [hzero] at hcounted
  rw [hstart] at hwritten
  -- the last entry is set
  have hlast := write_append (((offsets 0 parts).map some).map some) [] none (some (none : Option ℕ))
  rw [PartLayout.length_entries] at hlast
  have hentries : write (PartLayout.behind parts.length (wordsSize parts) j parts [] false none).list
      (PartLayout.behind parts.length (wordsSize parts) j parts [] false none).pos (some none) =
      some (((offsets 0 parts).map some).map some ++ [some none]) := by
    rw [PartLayout.behind, Nat.sub_self]
    exact hlast
  have hbytes : (PartLayout.behind parts.length (wordsSize parts) j parts [] false none).bytes =
      (wordsBytes parts).map some := by
    rw [PartLayout.behind, List.append_nil]
    exact filled_full (length_wordsBytes parts)
  simp only [splitString, if_neg hsep, hcounted, hclose, Tally.behind, hwritten, hentries, hbytes,
    CommandList.ofWords, List.map_append]
  rfl

/-- The parts with their NULs take one byte more than the text at most. -/
theorem wordsSize_partsFrom_le (word text : Str) :
    wordsSize (partsFrom sep keepEmpty word text) ≤ word.length + text.length + 1 := by
  induction text generalizing word with
  | nil =>
    rw [partsFrom_nil]
    exact (wordsSize_filter_le _ _).trans (wordsSize_singleton word).le
  | cons c text ih =>
    by_cases hc : c = sep
    · subst hc
      have hfirst : wordsSize (partsFrom c keepEmpty word []) ≤ word.length + 1 := by
        rw [partsFrom_nil]
        exact (wordsSize_filter_le _ _).trans (wordsSize_singleton word).le
      have hrest := ih []
      rw [partsFrom_sep, wordsSize_append, List.length_cons]
      rw [List.length_nil] at hrest
      omega
    · have hrest := ih (word ++ [c])
      rw [partsFrom_cons hc, List.length_cons]
      rw [List.length_append, List.length_singleton] at hrest
      omega

/-- Below `2 ^ 32 - 2` bytes `shlSplitString` is what the function gives. -/
theorem splitString_of_length (hsep : sep ≠ 0) (hlength : arg.bytes.length < 2 ^ 32 - 2) :
    ∃ fuel, splitString arg sep keepEmpty fuel =
      some (.ok (.ofWords (shlSplitString arg.bytes sep keepEmpty))) := by
  have hsize := @wordsSize_partsFrom_le sep keepEmpty [] arg.bytes
  rw [partsFrom_nil_left, List.length_nil] at hsize
  have hnum := length_le_wordsSize (shlSplitString arg.bytes sep keepEmpty)
  exact splitString_of_fit hsep ⟨by omega, by omega, by omega⟩

/-- Where the list is written the counters are large enough. -/
theorem partsFit_of_splitString (hsep : sep ≠ 0) {fuel : ℕ}
    (h : splitString arg sep keepEmpty fuel =
      some (.ok (.ofWords (shlSplitString arg.bytes sep keepEmpty)))) :
    PartsFit arg sep keepEmpty := by
  obtain ⟨hentries, hbytes⟩ := length_splitString h
  rw [CommandList.ofWords, List.length_map, List.length_append, List.length_map,
    length_offsets, List.length_singleton] at hentries
  rw [CommandList.ofWords, List.length_map, length_wordsBytes] at hbytes
  refine ⟨?_, hbytes, hentries⟩
  by_contra hlong
  rw [splitString_eq_none (by omega) hsep] at h
  cases h

/-- The function splits a string at its separators if and only if its counters are large
enough. -/
theorem splitsAtSeparators_iff (arg : CString.Str) (sep : UInt8) (keepEmpty : Bool) :
    SplitsAtSeparators arg sep keepEmpty ↔ sep = 0 ∨ PartsFit arg sep keepEmpty := by
  unfold SplitsAtSeparators
  by_cases hsep : sep = 0
  · rw [if_pos hsep]
    exact iff_of_true (fun fuel => if_pos hsep) (.inl hsep)
  · rw [if_neg hsep, or_iff_right hsep]
    constructor
    · rintro ⟨fuel, hfuel⟩
      exact partsFit_of_splitString hsep hfuel
    · exact splitString_of_fit hsep

/-- The size of one part of `2 ^ 32 - 1` letters with its NUL wraps to 0. -/
theorem letters_not_splitsAtSeparators :
    ¬ SplitsAtSeparators (letters (2 ^ 32 - 1)) 0x2c false := by
  have hlong : ∀ n, 2 ^ 32 ≤ n + 1 → ¬ SplitsAtSeparators (letters n) 0x2c false := by
    intro n hn h
    obtain ⟨fuel, hfuel⟩ : ∃ fuel, splitString (letters n) 0x2c false fuel =
        some (.ok (.ofWords (shlSplitString (letters n).bytes 0x2c false))) := by
      rwa [SplitsAtSeparators, if_neg (by decide)] at h
    obtain ⟨-, hsize, -⟩ := partsFit_of_splitString (by decide) hfuel
    have hcomma : (0x2c : UInt8) ∉ (letters n).bytes := fun hmem =>
      absurd (List.eq_of_mem_replicate hmem) (by decide)
    have hne : (letters n).bytes ≠ [] := by
      intro hnil
      have hzero := congrArg List.length hnil
      rw [letters, List.length_replicate, List.length_nil] at hzero
      omega
    have hparts : shlSplitString (letters n).bytes 0x2c false = [(letters n).bytes] := by
      rw [shlSplitString, List.splitOn_eq_singleton hcomma]
      simp [hne]
    rw [hparts, wordsSize_singleton, letters, List.length_replicate] at hsize
    omega
  exact hlong (2 ^ 32 - 1) (by decide)

end Split

end Faceplate.Conf
