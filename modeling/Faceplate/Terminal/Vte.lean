import Mathlib.Data.List.DropRight
import Faceplate.Terminal.Frame

/-!
# What is assumed of the vte

libtsm is not part of this repository. After a hard reset its screen is empty; a line of
printable text starts a row, goes on in the next one at the right edge and ends at the
start of another; at the lower edge the screen scrolls. The typewriter at the end of this
file is a console that does this.
-/

namespace Faceplate.Terminal

/-- One character on a page of full rows and the row in progress. -/
def typed (cols : ℕ) (page : List (List UInt8) × List UInt8) (c : UInt8) :
    List (List UInt8) × List UInt8 :=
  if page.2.length = cols then (page.1 ++ [page.2], [c]) else (page.1, page.2 ++ [c])

/-- The rows that a text takes. -/
def wrapped (cols : ℕ) (text : List UInt8) : List (List UInt8) :=
  (text.foldl (typed cols) ([], [])).1 ++ [(text.foldl (typed cols) ([], [])).2]

theorem foldl_typed_of_le {cols : ℕ} (text : List UInt8) (rows : List (List UInt8))
    (line : List UInt8) (h : line.length + text.length ≤ cols) :
    text.foldl (typed cols) (rows, line) = (rows, line ++ text) := by
  induction text generalizing line with
  | nil => simp
  | cons c text ih =>
    rw [List.length_cons] at h
    have hroom : line.length ≠ cols := by omega
    have htail := ih (line ++ [c]) (by rw [List.length_append, List.length_singleton]; omega)
    rw [List.foldl_cons, typed, if_neg hroom, htail, List.append_assoc, List.singleton_append]

/-- A text that is not too long takes one row. -/
theorem wrapped_of_le {cols : ℕ} {text : List UInt8} (h : text.length ≤ cols) :
    wrapped cols text = [text] := by
  rw [wrapped, foldl_typed_of_le text [] [] (by simpa using h)]
  rfl

/-- Scrolling twice is scrolling once. -/
theorem rtake_append_rtake {α : Type*} (n : ℕ) (l m : List α) :
    (l.rtake n ++ m).rtake n = (l ++ m).rtake n := by
  simp only [List.rtake, List.length_append, List.length_drop, List.drop_append, List.drop_drop]
  congr 2 <;> omega

theorem rtake_of_le {α : Type*} {n : ℕ} {l : List α} (h : l.length ≤ n) : l.rtake n = l := by
  rw [List.rtake, Nat.sub_eq_zero_of_le h, List.drop_zero]

/-- A character that the vte writes as it is. -/
def Printable (c : UInt8) : Prop := 0x20 ≤ c ∧ c ≤ 0x7e

instance : DecidablePred Printable := fun c =>
  inferInstanceAs (Decidable (0x20 ≤ c ∧ c ≤ 0x7e))

/-- What stands in a cell of a screen with these rows, a blank where there is nothing. -/
def charAt (rows : List (List UInt8)) (x y : ℕ) : UInt8 := ((rows[y]?.getD [])[x]?).getD 0x20

theorem charAt_append_nil (rows : List (List UInt8)) (x y : ℕ) :
    charAt (rows ++ [[]]) x y = charAt rows x y := by
  unfold charAt
  rcases Nat.lt_trichotomy y rows.length with hlt | rfl | hgt
  · rw [List.getElem?_append_left hlt]
  · simp
  · have hlong : (rows ++ [[]])[y]? = none := by
      apply List.getElem?_eq_none
      rw [List.length_append, List.length_singleton]
      omega
    have hshort : rows[y]? = none := List.getElem?_eq_none (by omega)
    rw [hlong, hshort]

variable {κ : Type*}

/-- The columns and rows of a console. -/
def Tsm.size (tsm : Tsm κ) (con : κ) : ℕ × ℕ := (tsm.getWidth con, tsm.getHeight con)

/-- A vte: `cell` is what the screen shows at a column and a row, and `Written` tells
that it was reset and these rows have been written since. -/
structure Vte (tsm : Tsm κ) where
  cell : κ → ℕ → ℕ → UInt8
  Written : κ → List (List UInt8) → Prop
  width_pos : ∀ con, 0 < tsm.getWidth con
  shown : ∀ con rows, Written con rows →
    ∀ x < tsm.getWidth con, ∀ y < tsm.getHeight con, cell con x y = charAt rows x y
  reset : ∀ con, Written (tsm.hardReset con).1 []
  line : ∀ con rows text, Written con rows → (∀ c ∈ text, Printable c) →
    Written (tsm.input con (text ++ crlf)).1
      ((rows ++ wrapped (tsm.getWidth con) text).rtake (tsm.getHeight con - 1))
  setMaxSb : ∀ con n rows, Written con rows → Written (tsm.setMaxSb con n) rows
  sbReset : ∀ con rows, Written con rows → Written (tsm.sbReset con) rows
  selectionReset : ∀ con rows, Written con rows → Written (tsm.selectionReset con) rows
  /-- A resize that leaves the size as it is leaves the rows. -/
  resize : ∀ con cols height rows, tsm.size (tsm.resize con cols height) = tsm.size con →
    Written con rows → Written (tsm.resize con cols height) rows
  size_reset : ∀ con, tsm.size (tsm.hardReset con).1 = tsm.size con
  size_input : ∀ con u8, tsm.size (tsm.input con u8).1 = tsm.size con
  size_setMaxSb : ∀ con n, tsm.size (tsm.setMaxSb con n) = tsm.size con
  size_sbReset : ∀ con, tsm.size (tsm.sbReset con) = tsm.size con
  size_selectionReset : ∀ con, tsm.size (tsm.selectionReset con) = tsm.size con

namespace Vte

variable {tsm : Tsm κ} (v : Vte tsm)

/-- The screen shows these rows and nothing else. -/
def Shows (con : κ) (rows : List (List UInt8)) : Prop :=
  ∀ x < tsm.getWidth con, ∀ y < tsm.getHeight con, v.cell con x y = charAt rows x y

/-- The rows are written and the console has this size. -/
structure Holds (con : κ) (size : ℕ × ℕ) (rows : List (List UInt8)) : Prop where
  written : v.Written con rows
  size : tsm.size con = size

variable {v} {con : κ} {size : ℕ × ℕ} {rows : List (List UInt8)} {env : Env}

/-- What the vte calls back meanwhile does not touch the rows. -/
theorem written_vte {out : κ × List VteCall} (h : v.Written out.1 rows) (term : Terminal κ) :
    v.Written (term.vte tsm env out).console rows := by
  have hcalls : ∀ (calls : List VteCall) (term : Terminal κ), v.Written term.console rows →
      v.Written (calls.foldl (vteCall tsm env) term).console rows := by
    intro calls
    induction calls with
    | nil => exact fun _ hterm => hterm
    | cons call calls ih =>
      intro term hterm
      apply ih
      cases call with
      | write u8 => exact hterm
      | mouse => exact v.selectionReset _ _ hterm
      | foreground on => exact hterm
  exact hcalls out.2 _ h

/-- Nor does it touch the size. -/
theorem size_vte (v : Vte tsm) (term : Terminal κ) (out : κ × List VteCall) :
    tsm.size (term.vte tsm env out).console = tsm.size out.1 := by
  have hcalls : ∀ (calls : List VteCall) (term : Terminal κ),
      tsm.size (calls.foldl (vteCall tsm env) term).console = tsm.size term.console := by
    intro calls
    induction calls with
    | nil => exact fun _ => rfl
    | cons call calls ih =>
      intro term
      refine (ih _).trans ?_
      cases call with
      | write u8 => rfl
      | mouse => exact v.size_selectionReset _
      | foreground on => rfl
  exact hcalls out.2 _

theorem size_vteHardReset (v : Vte tsm) (term : Terminal κ) :
    tsm.size (term.vteHardReset tsm env).console = tsm.size term.console :=
  (v.size_vte term _).trans (v.size_reset _)

theorem size_vteInput (v : Vte tsm) (u8 : List UInt8) (term : Terminal κ) :
    tsm.size (term.vteInput tsm env u8).console = tsm.size term.console :=
  (v.size_vte term _).trans (v.size_input _ _)

theorem Holds.vte {out : κ × List VteCall} (h : v.Holds out.1 size rows) (term : Terminal κ) :
    v.Holds (term.vte tsm env out).console size rows :=
  ⟨written_vte h.written term, (v.size_vte term out).trans h.size⟩

theorem holds_reset (term : Terminal κ) :
    v.Holds (term.vteHardReset tsm env).console (tsm.size term.console) [] :=
  Holds.vte ⟨v.reset _, v.size_reset _⟩ term

/-- A line of text adds its rows. -/
theorem Holds.line {term : Terminal κ} (h : v.Holds term.console size rows) {text : List UInt8}
    (htext : ∀ c ∈ text, Printable c) :
    v.Holds (term.vteInput tsm env (text ++ crlf)).console size
      ((rows ++ wrapped size.1 text).rtake (size.2 - 1)) := by
  have hwritten := v.line _ _ text h.written htext
  rw [← h.size]
  exact Holds.vte ⟨hwritten, v.size_input _ _⟩ term

/-- Lines that are not too long fill one row each, as long as there are rows. -/
theorem Holds.lines {term : Terminal κ} (h : v.Holds term.console size rows)
    {texts : List (List UInt8)} (htexts : ∀ text ∈ texts, ∀ c ∈ text, Printable c)
    (hcols : ∀ text ∈ texts, text.length ≤ size.1)
    (hrows : rows.length + texts.length ≤ size.2 - 1) :
    v.Holds ((texts.map (· ++ crlf)).foldl (fun term line => term.vteInput tsm env line)
      term).console size (rows ++ texts) := by
  induction texts generalizing term rows with
  | nil => simpa using h
  | cons text texts ih =>
    rw [List.length_cons] at hrows
    have hline := @Holds.line κ tsm v size rows env term h text (htexts text List.mem_cons_self)
    have hkeep : (rows ++ wrapped size.1 text).rtake (size.2 - 1) = rows ++ [text] := by
      rw [wrapped_of_le (hcols text List.mem_cons_self)]
      apply rtake_of_le
      simp only [List.length_append, List.length_singleton]
      omega
    rw [hkeep] at hline
    have hrest := ih hline (fun t ht => htexts t (List.mem_cons_of_mem _ ht))
      (fun t ht => hcols t (List.mem_cons_of_mem _ ht))
      (by simp only [List.length_append, List.length_singleton]; omega)
    rwa [List.append_assoc, List.singleton_append] at hrest

end Vte

/-- A sheet of paper with a carriage. -/
structure Paper where
  cols : ℕ
  rows : ℕ
  hcols : 0 < cols
  above : List (List UInt8)
  line : List UInt8
  column : ℕ

namespace Paper

/-- The paper moves up. -/
def feed (paper : Paper) : Paper :=
  { paper with above := (paper.above ++ [paper.line]).rtake (paper.rows - 1), line := [] }

/-- A character is typed over what stands there. -/
def put (paper : Paper) (c : UInt8) : Paper :=
  { paper with
    line := paper.line.take paper.column ++
      (List.replicate (paper.column - paper.line.length) 0x20 ++
        c :: paper.line.drop (paper.column + 1))
    column := paper.column + 1 }

/-- One byte of input. -/
def byte (paper : Paper) (c : UInt8) : Paper :=
  if c = 0x0d then { paper with column := 0 }
  else if c = 0x0a then paper.feed
  else if paper.column = paper.cols then { paper.feed with column := 0 }.put c
  else paper.put c

/-- Empty paper. -/
def clear (paper : Paper) : Paper := { paper with above := [], line := [], column := 0 }

/-- Another size of paper. -/
def cut (paper : Paper) (cols rows : ℕ) : Paper :=
  if h : 0 < cols ∧ 0 < rows ∧ (cols, rows) ≠ (paper.cols, paper.rows) then
    ⟨cols, rows, h.1, (paper.above.map (·.take cols)).rtake (rows - 1), paper.line.take cols,
      min paper.column cols⟩
  else paper

/-- These rows were typed, and the carriage stands at the start of the next one. -/
structure Typed (paper : Paper) (rows : List (List UInt8)) : Prop where
  above : paper.above = rows
  line : paper.line = []
  column : paper.column = 0
  fits : rows.length ≤ paper.rows - 1

/-- The paper while a text is typed behind some rows. -/
structure Typing (paper : Paper) (size : ℕ × ℕ) (rows : List (List UInt8))
    (page : List (List UInt8) × List UInt8) : Prop where
  cols : paper.cols = size.1
  height : paper.rows = size.2
  above : paper.above = (rows ++ page.1).rtake (size.2 - 1)
  line : paper.line = page.2
  column : paper.column = page.2.length

theorem Typing.byte {paper : Paper} {size : ℕ × ℕ} {rows : List (List UInt8)}
    {page : List (List UInt8) × List UInt8} (h : paper.Typing size rows page) {c : UInt8}
    (hc : Printable c) : (paper.byte c).Typing size rows (typed size.1 page c) := by
  have hcr : c ≠ 0x0d := by
    rintro rfl
    exact absurd hc (by decide)
  have hlf : c ≠ 0x0a := by
    rintro rfl
    exact absurd hc (by decide)
  rw [Paper.byte, if_neg hcr, if_neg hlf, typed, h.column, h.cols]
  split_ifs with hfull
  · refine ⟨h.cols, h.height, ?_, by simp [put, feed], by simp [put, feed]⟩
    simp only [put, feed, h.height, h.above, h.line]
    rw [rtake_append_rtake, List.append_assoc]
  · refine ⟨h.cols, h.height, h.above, ?_, by simp [put, h.column]⟩
    simp [put, h.line, h.column]

theorem Typing.text {paper : Paper} {size : ℕ × ℕ} {rows : List (List UInt8)}
    {page : List (List UInt8) × List UInt8} (h : paper.Typing size rows page)
    {text : List UInt8} (htext : ∀ c ∈ text, Printable c) :
    (text.foldl Paper.byte paper).Typing size rows (text.foldl (typed size.1) page) := by
  induction text generalizing paper page with
  | nil => exact h
  | cons c text ih =>
    exact ih (h.byte (htext c List.mem_cons_self)) fun d hd => htext d (List.mem_cons_of_mem _ hd)

/-- A line leaves its rows. -/
theorem Typed.write {paper : Paper} {rows : List (List UInt8)} (h : paper.Typed rows)
    {text : List UInt8} (htext : ∀ c ∈ text, Printable c) :
    ((text ++ crlf).foldl Paper.byte paper).Typed
      ((rows ++ wrapped paper.cols text).rtake (paper.rows - 1)) := by
  have hstart : paper.Typing (paper.cols, paper.rows) rows ([], []) :=
    ⟨rfl, rfl, by rw [List.append_nil, rtake_of_le h.fits, h.above], h.line, h.column⟩
  have htyped := hstart.text htext
  have hend : (text ++ crlf).foldl Paper.byte paper =
      ({ text.foldl Paper.byte paper with column := 0 } : Paper).feed := by
    rw [List.foldl_append]
    rfl
  rw [hend]
  refine ⟨?_, rfl, rfl, ?_⟩
  · simp only [feed, htyped.above, htyped.line, htyped.height, wrapped]
    rw [rtake_append_rtake, List.append_assoc]
  · simp only [feed, htyped.height, List.rtake, List.length_drop]
    omega

theorem cut_of_size {paper : Paper} {cols height : ℕ}
    (h : ((paper.cut cols height).cols, (paper.cut cols height).rows) =
      (paper.cols, paper.rows)) : paper.cut cols height = paper := by
  unfold cut at h ⊢
  split_ifs at h ⊢ with hnew
  · exact absurd h hnew.2.2
  · rfl

theorem size_byte (paper : Paper) (c : UInt8) :
    ((paper.byte c).cols, (paper.byte c).rows) = (paper.cols, paper.rows) := by
  unfold byte
  split_ifs <;> rfl

theorem size_foldl (u8 : List UInt8) (paper : Paper) :
    ((u8.foldl byte paper).cols, (u8.foldl byte paper).rows) = (paper.cols, paper.rows) := by
  induction u8 generalizing paper with
  | nil => rfl
  | cons c u8 ih => exact (ih (paper.byte c)).trans (paper.size_byte c)

end Paper

/-- A console on paper. -/
def typewriter : Tsm Paper where
  getWidth paper := paper.cols
  getHeight paper := paper.rows
  resize := Paper.cut
  setMaxSb paper _ := paper
  sbReset paper := paper
  sbUp paper _ := paper
  sbDown paper _ := paper
  sbPageUp paper _ := paper
  sbPageDown paper _ := paper
  selectionReset paper := paper
  selectionStart paper _ _ := paper
  selectionTarget paper _ _ := paper
  selectionWord paper _ _ := paper
  selectionCopy _ := []
  mouseTracking _ := false
  hardReset paper := (paper.clear, [])
  input paper u8 := (u8.foldl Paper.byte paper, [])
  handleKeyboard paper _ := (false, paper, [])
  handleMouse paper _ := (paper, [])
  paste paper _ := (paper, [])

/-- The typewriter does what is assumed of a vte. -/
def typewriterVte : Vte typewriter where
  cell paper x y := charAt (paper.above ++ [paper.line]) x y
  Written := Paper.Typed
  width_pos := Paper.hcols
  shown paper rows h x _ y _ := by
    rw [h.above, h.line]
    exact charAt_append_nil rows x y
  reset paper := ⟨rfl, rfl, rfl, Nat.zero_le _⟩
  line paper rows text h htext := h.write htext
  setMaxSb _ _ _ h := h
  sbReset _ _ h := h
  selectionReset _ _ h := h
  resize paper cols height rows hsize h := by
    have hcut : typewriter.resize paper cols height = paper := Paper.cut_of_size hsize
    rwa [hcut]
  size_reset _ := rfl
  size_input paper u8 := Paper.size_foldl u8 paper
  size_setMaxSb _ _ := rfl
  size_sbReset _ := rfl
  size_selectionReset _ := rfl

end Faceplate.Terminal
