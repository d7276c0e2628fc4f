import Faceplate.Misc.AddrBook

/-!
# The list of addresses and its buffer

The full text is made of pieces: a name, an address, a line break. The string stays in its
buffer, and the count of remaining bytes does not wrap, exactly if no name and no address
of the full text crosses the last byte that may be used.
-/

namespace Faceplate.Misc

open CString Snprintf Writes

/-! ## Pieces -/

/-- A piece of the full text. -/
inductive IpPiece where
  | name (text : List UInt8)
  | addr (text : List UInt8)
  | newline

namespace IpPiece

/-- The bytes of a piece. -/
def text : IpPiece → List UInt8
  | .name n => n ++ lit ": "
  | .addr a => a ++ lit " "
  | .newline => [0x0d, 0x0a]

/-- The piece starts where bytes may be written and ends behind them. A name is written
even where nothing remains; an address is not. -/
def Crosses (start : ℕ) (piece : IpPiece) : Prop :=
  match piece with
  | .name _ => start ≤ bufSize - 1 ∧ bufSize - 1 < start + piece.text.length
  | .addr _ => start < bufSize - 1 ∧ bufSize - 1 < start + piece.text.length
  | .newline => False

instance (start : ℕ) : ∀ piece : IpPiece, Decidable (piece.Crosses start)
  | .name _ => inferInstanceAs (Decidable (_ ∧ _))
  | .addr _ => inferInstanceAs (Decidable (_ ∧ _))
  | .newline => inferInstanceAs (Decidable False)

end IpPiece

/-- The text of some pieces. -/
def textOf (pieces : List IpPiece) : List UInt8 := pieces.flatMap IpPiece.text

@[simp] theorem textOf_nil : textOf [] = [] := rfl

@[simp] theorem textOf_cons (piece : IpPiece) (pieces : List IpPiece) :
    textOf (piece :: pieces) = piece.text ++ textOf pieces := rfl

@[simp] theorem textOf_append (pieces pieces' : List IpPiece) :
    textOf (pieces ++ pieces') = textOf pieces ++ textOf pieces' := List.flatMap_append

/-- The pieces of some addresses. -/
def addrPieces (ips : List IpAddr) : List IpPiece := ips.map fun ip => .addr ip.addr.text

/-- The pieces of an interface. -/
def Interface.pieces (iface : Interface) : List IpPiece :=
  .name iface.name :: addrPieces iface.ips ++ [.newline]

/-- The pieces of some interfaces. -/
def ifacePieces (ifaces : List Interface) : List IpPiece := ifaces.flatMap Interface.pieces

theorem ifacePieces_cons (iface : Interface) (ifaces : List Interface) :
    ifacePieces (iface :: ifaces) =
      .name iface.name :: (addrPieces iface.ips ++ .newline :: ifacePieces ifaces) := by
  simp [ifacePieces, Interface.pieces]

/-- The pieces of the full text: for each interface its name, its first 32 addresses, and a
line break. -/
def AddrBook.pieces (book : AddrBook) (filter : Bool) : List IpPiece :=
  (ifaceNames (book.listed filter)).flatMap fun name =>
    (Interface.of (book.listed filter) name).pieces

/-- No piece of the full text crosses the last byte. -/
def AddrBook.FitsBuffer (book : AddrBook) (filter : Bool) : Prop :=
  ∀ before piece after, book.pieces filter = before ++ piece :: after →
    ¬ piece.Crosses (textOf before).length

/-- No piece crosses the last byte when the first starts here. -/
def FitsFrom : ℕ → List IpPiece → Prop
  | _, [] => True
  | start, piece :: pieces => ¬ piece.Crosses start ∧ FitsFrom (start + piece.text.length) pieces

instance FitsFrom.decidable : ∀ start pieces, Decidable (FitsFrom start pieces)
  | _, [] => inferInstanceAs (Decidable True)
  | start, piece :: pieces =>
    have := FitsFrom.decidable (start + piece.text.length) pieces
    inferInstanceAs (Decidable (_ ∧ _))

theorem fitsFrom_append {start : ℕ} {pieces pieces' : List IpPiece} :
    FitsFrom start (pieces ++ pieces') ↔
      FitsFrom start pieces ∧ FitsFrom (start + (textOf pieces).length) pieces' := by
  induction pieces generalizing start with
  | nil => simp [FitsFrom]
  | cons piece pieces ih =>
    rw [List.cons_append, FitsFrom, FitsFrom, ih, and_assoc, textOf_cons, List.length_append,
      Nat.add_assoc]

theorem fitsFrom_iff {start : ℕ} {pieces : List IpPiece} :
    FitsFrom start pieces ↔ ∀ before piece after, pieces = before ++ piece :: after →
      ¬ piece.Crosses (start + (textOf before).length) := by
  constructor
  · rintro h before piece after rfl
    exact (fitsFrom_append.mp h).2.1
  · intro h
    induction pieces generalizing start with
    | nil => trivial
    | cons piece pieces ih =>
      refine ⟨h [] piece pieces rfl, ih fun before other after hsplit => ?_⟩
      have hcross := h (piece :: before) other after (by rw [hsplit]; rfl)
      rwa [textOf_cons, List.length_append, ← Nat.add_assoc] at hcross

/-- Behind the last byte no piece starts. -/
theorem fitsFrom_of_lt {start : ℕ} (h : bufSize - 1 < start) (pieces : List IpPiece) :
    FitsFrom start pieces := by
  induction pieces generalizing start with
  | nil => trivial
  | cons piece pieces ih =>
    refine ⟨?_, ih (by omega)⟩
    cases piece with
    | name name => exact fun hcross => absurd hcross.1 (by omega)
    | addr addr => exact fun hcross => absurd hcross.1 (by omega)
    | newline => exact id

/-- No address crosses the last byte from there on. -/
theorem fitsFrom_addrPieces {start : ℕ} (h : bufSize - 1 ≤ start) (ips : List IpAddr) :
    FitsFrom start (addrPieces ips) := by
  induction ips generalizing start with
  | nil => trivial
  | cons ip ips ih =>
    refine ⟨fun hcross => absurd hcross.1 (by omega), ih (by omega)⟩

/-! ## The string so far -/

namespace Printer

/-- No subtraction has wrapped. -/
def Unwrapped (p : Printer) : Prop := ∀ sub ∈ p.subtractions, sub.2 ≤ sub.1

/-- A text has been written, or all of it but the last byte, in place of which there is a
NUL. -/
def Written (out : List (Option UInt8)) (text : List UInt8) : Prop :=
  (∃ rest, out = text.map some ++ rest) ∨
    text.length = bufSize - 1 ∧
      ∃ rest, out = (text.take (bufSize - 2)).map some ++ some 0 :: rest

/-- The printer behind a text. -/
structure Behind (text : List UInt8) (p : Printer) : Prop where
  s : p.s = text.length
  remaining : p.remaining = bufSize - 1 - text.length
  le : text.length ≤ bufSize - 1
  size : p.out.length = bufSize
  written : Written p.out text
  unwrapped : p.Unwrapped

theorem behind_start : start.Behind [] where
  s := rfl
  remaining := rfl
  le := Nat.zero_le _
  size := List.length_replicate
  written := .inl ⟨_, rfl⟩
  unwrapped := by simp [Unwrapped, start]

theorem unwrapped_concat {subs : List (ℕ × ℕ)} {a b : ℕ} (h : ∀ sub ∈ subs, sub.2 ≤ sub.1)
    (hle : b ≤ a) : ∀ sub ∈ subs ++ [(a, b)], sub.2 ≤ sub.1 := by
  intro sub hsub
  rcases List.mem_append.mp hsub with hsub | hsub
  · exact h sub hsub
  · rw [List.mem_singleton.mp hsub]
    exact hle

/-- A text that fits is printed, but for its last byte if nothing remains behind it. -/
theorem Behind.print {text : List UInt8} {p : Printer} (h : p.Behind text) {piece : List UInt8}
    (hpos : text.length < bufSize - 1) (hfits : text.length + piece.length ≤ bufSize - 1) :
    ∃ p', p.print piece = some p' ∧ p'.Behind (text ++ piece) := by
  have hbuf : bufSize = 8192 := rfl
  obtain ⟨rest, hout⟩ : ∃ rest, p.out = text.map some ++ rest := by
    rcases h.written with hout | ⟨hfull, -⟩
    · exact hout
    · omega
  have hrest : rest.length = bufSize - text.length := by
    have hsize := h.size
    rw [hout, List.length_append, List.length_map] at hsize
    omega
  obtain ⟨rest', hwrite, hrest'⟩ := snprintf_append (some 0) (text.map some) rest (piece.map some)
    (by omega : 0 < bufSize - 1 - text.length) (by omega)
  rw [List.length_map, ← h.remaining, ← h.s, ← hout] at hwrite
  have hsub : subSize p.remaining piece.length = bufSize - 1 - (text ++ piece).length := by
    rw [subSize_of_le (by rw [h.remaining]; omega) (by rw [h.remaining]; omega), h.remaining,
      List.length_append]
    omega
  refine ⟨_, by rw [Printer.print, hwrite, Option.map_some], ?_, hsub, ?_, ?_, ?_, ?_⟩
  · rw [List.length_append, h.s]
  · rw [List.length_append]
    exact hfits
  · exact (length_snprintf hwrite).trans h.size
  · rw [h.remaining]
    by_cases hroom : piece.length < bufSize - 1 - text.length
    · left
      refine ⟨some 0 :: rest', ?_⟩
      rw [List.take_of_length_le (by rw [List.length_map]; omega), List.map_append]
    · right
      have hlength : (text ++ piece).length = bufSize - 1 := by
        rw [List.length_append]
        omega
      have hcut : (text ++ piece).take (bufSize - 2) =
          text ++ piece.take (bufSize - 1 - text.length - 1) := by
        rw [List.take_append, List.take_of_length_le (by omega : text.length ≤ bufSize - 2)]
        congr 2
        omega
      exact ⟨hlength, rest', by rw [hcut, List.map_append, List.map_take]⟩
  · exact unwrapped_concat h.unwrapped (by rw [h.remaining]; omega)

/-- A byte is written where one remains. -/
theorem write_next {out : List (Option UInt8)} {text : List UInt8}
    (hout : ∃ rest, out = text.map some ++ rest) (hsize : text.length < out.length) (c : UInt8) :
    ∃ out', write out text.length (some c) = some out' ∧ out'.length = out.length ∧
      ∃ rest, out' = (text ++ [c]).map some ++ rest := by
  obtain ⟨rest, rfl⟩ := hout
  cases rest with
  | nil =>
    rw [List.append_nil, List.length_map] at hsize
    omega
  | cons old rest =>
    have hwrite := write_append (text.map some) rest old (some c)
    rw [List.length_map] at hwrite
    exact ⟨_, hwrite, by simp, rest, by simp⟩

/-- A line break is written where two bytes remain. -/
theorem Behind.newline {text : List UInt8} {p : Printer} (h : p.Behind text)
    (htwo : 2 ≤ p.remaining) :
    ∃ p1 p2, p.put 0x0d = some p1 ∧ p1.put 0x0a = some p2 ∧ p2.remaining = p.remaining ∧
      p2.subtractions = p.subtractions ∧
      Behind (text ++ IpPiece.newline.text) { p2 with
        remaining := subSize p2.remaining 2
        subtractions := p2.subtractions ++ [(p2.remaining, 2)] } := by
  have hbuf : bufSize = 8192 := rfl
  have hremaining := h.remaining
  have hle := h.le
  have hout : ∃ rest, p.out = text.map some ++ rest := by
    rcases h.written with hout | ⟨hfull, -⟩
    · exact hout
    · omega
  obtain ⟨out1, hwrite1, hlen1, hout1⟩ := write_next hout (by rw [h.size]; omega) 0x0d
  obtain ⟨out2, hwrite2, hlen2, hout2⟩ := write_next hout1
    (by rw [hlen1, h.size, List.length_append, List.length_singleton]; omega) 0x0a
  have htext : text ++ [0x0d] ++ [0x0a] = text ++ IpPiece.newline.text := by
    rw [List.append_assoc]
    rfl
  have hlen : (text ++ IpPiece.newline.text).length = text.length + 2 := List.length_append
  rw [htext] at hout2
  rw [List.length_append, List.length_singleton] at hwrite2
  refine ⟨⟨out1, p.s + 1, p.remaining, p.subtractions⟩,
    ⟨out2, p.s + 1 + 1, p.remaining, p.subtractions⟩, ?_, ?_, rfl, rfl, ?_, ?_, ?_, ?_, ?_, ?_⟩
  · rw [put, h.s, hwrite1, Option.map_some]
  · rw [put, h.s, hwrite2, Option.map_some]
  · rw [hlen, h.s]
  · change subSize p.remaining 2 = _
    rw [hlen, subSize_of_le htwo (by omega), hremaining]
    omega
  · rw [hlen]
    omega
  · exact (hlen2.trans hlen1).trans h.size
  · exact .inl hout2
  · exact unwrapped_concat h.unwrapped htwo

/-! ## The loops -/

/-- A subtraction that has wrapped is not forgotten. -/
theorem Unwrapped.of_prefix {p p' : Printer} (h : p'.Unwrapped)
    (hpre : p.subtractions <+: p'.subtractions) : p.Unwrapped :=
  fun sub hsub => h sub (hpre.subset hsub)

theorem prefix_print {p p' : Printer} {text : List UInt8} (h : p.print text = some p') :
    p'.subtractions = p.subtractions ++ [(p.remaining, text.length)] := by
  obtain ⟨out, -, rfl⟩ := Option.map_eq_some_iff.mp h
  rfl

theorem prefix_put {p p' : Printer} {c : UInt8} (h : p.put c = some p') :
    p'.subtractions = p.subtractions := by
  obtain ⟨out, -, rfl⟩ := Option.map_eq_some_iff.mp h
  rfl

theorem prefix_printAddrs {ips : List IpAddr} {p p' : Printer} (h : printAddrs ips p = some p') :
    p.subtractions <+: p'.subtractions := by
  induction ips generalizing p with
  | nil =>
    obtain rfl := Option.some.inj h
    exact List.prefix_refl _
  | cons ip ips ih =>
    rw [printAddrs] at h
    split_ifs at h
    · obtain ⟨mid, hmid, hrest⟩ := Option.bind_eq_some_iff.mp h
      exact (prefix_print hmid ▸ List.prefix_append _ _).trans (ih hrest)
    · obtain rfl := Option.some.inj h
      exact List.prefix_refl _

theorem prefix_printIfaces {ifaces : List Interface} {p p' : Printer}
    (h : printIfaces ifaces p = some p') : p.subtractions <+: p'.subtractions := by
  induction ifaces generalizing p with
  | nil =>
    obtain rfl := Option.some.inj h
    exact List.prefix_refl _
  | cons iface ifaces ih =>
    rw [printIfaces] at h
    obtain ⟨p1, hp1, h⟩ := Option.bind_eq_some_iff.mp h
    obtain ⟨p2, hp2, h⟩ := Option.bind_eq_some_iff.mp h
    have hname : p.subtractions <+: p2.subtractions :=
      (prefix_print hp1 ▸ List.prefix_append _ _).trans (prefix_printAddrs hp2)
    split_ifs at h
    · obtain rfl := Option.some.inj h
      exact hname
    · obtain ⟨p3, hp3, h⟩ := Option.bind_eq_some_iff.mp h
      obtain ⟨p4, hp4, h⟩ := Option.bind_eq_some_iff.mp h
      have hbreak : p2.subtractions = p4.subtractions := by
        rw [prefix_put hp4, prefix_put hp3]
      refine hname.trans (List.IsPrefix.trans ?_ (ih h))
      rw [hbreak]
      exact List.prefix_append _ _

/-- A text that is longer than what remains makes the count wrap. -/
theorem not_unwrapped_print {p p' : Printer} {text : List UInt8} (h : p.print text = some p')
    (hlong : p.remaining < text.length) : ¬ p'.Unwrapped := by
  intro hun
  have hle := hun (p.remaining, text.length) (by rw [prefix_print h]; simp)
  exact absurd hle (by simpa using hlong)

/-- Where no address crosses the last byte, the addresses are printed until they end or
nothing remains. -/
theorem Behind.printAddrs {text : List UInt8} {p : Printer} (h : p.Behind text)
    {ips : List IpAddr} (hfits : FitsFrom text.length (addrPieces ips)) :
    ∃ p' done rest, printAddrs ips p = some p' ∧ ips = done ++ rest ∧
      p'.Behind (text ++ textOf (addrPieces done)) ∧ (rest = [] ∨ p'.remaining = 0) := by
  induction ips generalizing text p with
  | nil => exact ⟨p, [], [], rfl, rfl, by simpa [addrPieces] using h, .inl rfl⟩
  | cons ip ips ih =>
    obtain ⟨hcross, hrest⟩ := hfits
    have hremaining := h.remaining
    by_cases hpos : p.remaining > 0
    · have hlt : text.length < bufSize - 1 := by omega
      have hfit : text.length + (ip.addr.text ++ lit " ").length ≤ bufSize - 1 := by
        by_contra hlong
        exact hcross ⟨hlt, by simpa [IpPiece.text] using hlong⟩
      obtain ⟨mid, hmid, hbehind⟩ := h.print hlt hfit
      rw [← List.length_append] at hrest
      obtain ⟨p', done, rest, hp', rfl, hbehind', hend⟩ := ih hbehind hrest
      refine ⟨p', ip :: done, rest, ?_, rfl, ?_, hend⟩
      · rw [Printer.printAddrs, if_pos hpos, hmid, Option.bind_some, hp']
      · simpa [addrPieces, IpPiece.text] using hbehind'
    · refine ⟨p, [], ip :: ips, ?_, rfl, by simpa [addrPieces] using h, .inr (by omega)⟩
      rw [Printer.printAddrs, if_neg hpos]

/-- Where one does, the count wraps. -/
theorem Behind.not_unwrapped_printAddrs {text : List UInt8} {p p' : Printer} (h : p.Behind text)
    {ips : List IpAddr} (hfits : ¬ FitsFrom text.length (addrPieces ips))
    (hp' : Printer.printAddrs ips p = some p') : ¬ p'.Unwrapped := by
  induction ips generalizing text p with
  | nil => exact absurd trivial hfits
  | cons ip ips ih =>
    have hremaining := h.remaining
    have hlt : text.length < bufSize - 1 := by
      by_contra hge
      exact hfits (fitsFrom_addrPieces (by omega) (ip :: ips))
    have hpos : p.remaining > 0 := by omega
    rw [Printer.printAddrs, if_pos hpos] at hp'
    obtain ⟨mid, hmid, hrest⟩ := Option.bind_eq_some_iff.mp hp'
    by_cases hfit : text.length + (ip.addr.text ++ lit " ").length ≤ bufSize - 1
    · obtain ⟨mid', hmid', hbehind⟩ := h.print hlt hfit
      obtain rfl := Option.some.inj (hmid.symm.trans hmid')
      refine ih hbehind (fun hfits' => hfits ⟨?_, ?_⟩) hrest
      · exact fun hcross => absurd hcross.2 (by simpa [IpPiece.text] using hfit)
      · rwa [List.length_append] at hfits'
    · have hwrapped := not_unwrapped_print hmid (by omega)
      exact fun hun => hwrapped (hun.of_prefix (prefix_printAddrs hrest))

/-- Where no piece crosses the last byte, a prefix of the text is printed. -/
theorem Behind.printIfaces {text : List UInt8} {p : Printer} (h : p.Behind text)
    {ifaces : List Interface} (hfits : FitsFrom text.length (ifacePieces ifaces)) :
    ∃ p' done, printIfaces ifaces p = some p' ∧ p'.Behind (text ++ done) ∧
      done <+: textOf (ifacePieces ifaces) := by
  induction ifaces generalizing text p with
  | nil => exact ⟨p, [], rfl, by rwa [List.append_nil], List.nil_prefix⟩
  | cons iface ifaces ih =>
    rw [ifacePieces_cons] at hfits ⊢
    obtain ⟨hcross, hfits⟩ := hfits
    obtain ⟨haddrs, -, hrest⟩ := fitsFrom_append.mp hfits
    have hle := h.le
    have hcolon : (lit ": ").length = 2 := by decide +kernel
    have hfit : text.length + (iface.name ++ lit ": ").length ≤ bufSize - 1 := by
      by_contra hlong
      exact hcross ⟨hle, by simpa [IpPiece.text] using hlong⟩
    have hlt : text.length < bufSize - 1 := by
      rw [List.length_append] at hfit
      omega
    obtain ⟨p1, hp1, hbehind1⟩ := h.print hlt hfit
    rw [← List.length_append] at haddrs hrest
    obtain ⟨p2, done, rest, hp2, hips, hbehind2, hend⟩ := hbehind1.printAddrs haddrs
    have htext : textOf (.name iface.name :: (addrPieces iface.ips ++ .newline ::
        ifacePieces ifaces)) = (iface.name ++ lit ": ") ++ textOf (addrPieces done) ++
          (textOf (addrPieces rest) ++ IpPiece.newline.text ++ textOf (ifacePieces ifaces)) := by
      rw [hips]
      simp [addrPieces, IpPiece.text]
    by_cases htwo : p2.remaining < 2
    · refine ⟨p2, (iface.name ++ lit ": ") ++ textOf (addrPieces done), ?_, ?_, ?_⟩
      · simp only [Printer.printIfaces, hp1, hp2, Option.bind_eq_bind, Option.bind_some,
          if_pos htwo]
        rfl
      · rwa [List.append_assoc] at hbehind2
      · rw [htext]
        exact List.prefix_append _ _
    · obtain rfl : rest = [] := hend.resolve_right (by omega)
      obtain ⟨p3, p4, hp3, hp4, -, -, hbehind4⟩ := hbehind2.newline (by omega)
      rw [List.append_nil] at hips
      rw [hips, ← List.length_append, ← List.length_append] at hrest
      obtain ⟨p', done', hp', hbehind', hpre⟩ := ih hbehind4 hrest
      refine ⟨p', (iface.name ++ lit ": ") ++ textOf (addrPieces done) ++
        (IpPiece.newline.text ++ done'), ?_, ?_, ?_⟩
      · simp only [Printer.printIfaces, hp1, hp2, hp3, hp4, Option.bind_eq_bind,
          Option.bind_some, if_neg htwo, hp']
      · simpa only [List.append_assoc] using hbehind'
      · rw [htext]
        refine (List.prefix_append_right_inj _).mpr ?_
        exact (List.prefix_append_right_inj _).mpr hpre

/-- Where one does, the count wraps. -/
theorem Behind.not_unwrapped_printIfaces {text : List UInt8} {p p' : Printer}
    (h : p.Behind text) {ifaces : List Interface}
    (hfits : ¬ FitsFrom text.length (ifacePieces ifaces))
    (hp' : Printer.printIfaces ifaces p = some p') : ¬ p'.Unwrapped := by
  induction ifaces generalizing text p with
  | nil => exact absurd trivial hfits
  | cons iface ifaces ih =>
    rw [ifacePieces_cons] at hfits
    have hle := h.le
    have hremaining := h.remaining
    have hcolon : (lit ": ").length = 2 := by decide +kernel
    rw [Printer.printIfaces] at hp'
    obtain ⟨p1, hp1, hp'⟩ := Option.bind_eq_some_iff.mp hp'
    obtain ⟨p2, hp2, hp'⟩ := Option.bind_eq_some_iff.mp hp'
    have hafter : p2.subtractions <+: p'.subtractions := by
      split_ifs at hp'
      · obtain rfl := Option.some.inj hp'
        exact List.prefix_refl _
      · obtain ⟨p3, hp3, hp'⟩ := Option.bind_eq_some_iff.mp hp'
        obtain ⟨p4, hp4, hp'⟩ := Option.bind_eq_some_iff.mp hp'
        refine List.IsPrefix.trans ?_ (prefix_printIfaces hp')
        rw [← prefix_put hp3, ← prefix_put hp4]
        exact List.prefix_append _ _
    by_cases hfit : text.length + (iface.name ++ lit ": ").length ≤ bufSize - 1
    · have hlt : text.length < bufSize - 1 := by
        rw [List.length_append] at hfit
        omega
      obtain ⟨p1', hp1', hbehind1⟩ := h.print hlt hfit
      obtain rfl := Option.some.inj (hp1.symm.trans hp1')
      by_cases haddrs : FitsFrom (text ++ (iface.name ++ lit ": ")).length (addrPieces iface.ips)
      · obtain ⟨p2', done, rest, hp2', hips, hbehind2, hend⟩ := hbehind1.printAddrs haddrs
        obtain rfl := Option.some.inj (hp2.symm.trans hp2')
        have hsplit : ¬ FitsFrom ((text ++ (iface.name ++ lit ": ")).length +
            (textOf (addrPieces iface.ips)).length + IpPiece.newline.text.length)
              (ifacePieces ifaces) := by
          intro hrest
          refine hfits ⟨fun hcross => ?_, ?_⟩
          · exact absurd hcross.2 (by simpa [IpPiece.text] using hfit)
          · rw [List.length_append] at haddrs hrest
            exact fitsFrom_append.mpr ⟨haddrs, fun hcross => hcross, hrest⟩
        have hremaining2 := hbehind2.remaining
        have hle2 := hbehind2.le
        have hdone : (textOf (addrPieces done)).length ≤
            (textOf (addrPieces iface.ips)).length := by
          rw [hips, addrPieces, addrPieces, List.map_append, textOf_append, List.length_append]
          exact Nat.le_add_right _ _
        have hnewline : IpPiece.newline.text.length = 2 := rfl
        rw [List.length_append] at hremaining2 hle2
        have htwo : ¬ p2.remaining < 2 := by
          intro htwo
          exact hsplit (fitsFrom_of_lt (by omega) _)
        obtain rfl : rest = [] := hend.resolve_right (by omega)
        rw [List.append_nil] at hips
        obtain ⟨p3, p4, hp3, hp4, -, -, hbehind4⟩ := hbehind2.newline (by omega)
        rw [if_neg htwo] at hp'
        obtain ⟨p3', hp3', hp'⟩ := Option.bind_eq_some_iff.mp hp'
        obtain rfl := Option.some.inj (hp3.symm.trans hp3')
        obtain ⟨p4', hp4', hp'⟩ := Option.bind_eq_some_iff.mp hp'
        obtain rfl := Option.some.inj (hp4.symm.trans hp4')
        rw [hips, ← List.length_append, ← List.length_append] at hsplit
        exact ih hbehind4 hsplit hp'
      · have hwrapped := hbehind1.not_unwrapped_printAddrs haddrs hp2
        exact fun hun => hwrapped (hun.of_prefix hafter)
    · have hwrapped := not_unwrapped_print hp1 (by omega)
      exact fun hun => hwrapped (hun.of_prefix ((prefix_printAddrs hp2).trans hafter))

end Printer

/-! ## The function -/

/-- The string stays in its buffer, the count of remaining bytes never wraps, and the result
is a prefix of the full text with a NUL behind it. -/
def AddrBook.ListsBounded (book : AddrBook) (filter : Bool) : Prop :=
  ∃ p, issueNetworkGetAllIp book filter = some p ∧ p.Unwrapped ∧
    ∃ text rest, p.out = text.map some ++ some 0 :: rest ∧ 0 ∉ text ∧
      text <+: textOf (book.pieces filter)

theorem ifacePieces_interfaces (book : AddrBook) (filter : Bool) :
    ifacePieces (book.interfaces filter) = book.pieces filter := by
  rw [ifacePieces, interfaces_eq, List.flatMap_map]
  rfl

theorem fitsBuffer_iff (book : AddrBook) (filter : Bool) :
    book.FitsBuffer filter ↔ FitsFrom 0 (ifacePieces (book.interfaces filter)) := by
  rw [ifacePieces_interfaces, fitsFrom_iff]
  simp only [Nat.zero_add]
  rfl

/-- There is no NUL in the full text. -/
theorem zero_notMem_textOf (book : AddrBook) (filter : Bool) :
    0 ∉ textOf (book.pieces filter) := by
  intro hmem
  obtain ⟨piece, hpiece, hzero⟩ := List.mem_flatMap.mp hmem
  obtain ⟨name, hname, hpiece⟩ := List.mem_flatMap.mp hpiece
  have hcolon : (0 : UInt8) ∉ lit ": " := by decide +kernel
  have hspace : (0 : UInt8) ∉ lit " " := by decide +kernel
  rcases List.mem_append.mp hpiece with hpiece | hpiece
  · rcases List.mem_cons.mp hpiece with rfl | hpiece
    · obtain ⟨ip, -, rfl⟩ := (mem_ifaceNames _ _).mp hname
      exact (List.mem_append.mp hzero).elim ip.interface.noNul hcolon
    · obtain ⟨ip, -, rfl⟩ := List.mem_map.mp hpiece
      exact (List.mem_append.mp hzero).elim ip.addr.noNul hspace
  · obtain rfl := List.mem_singleton.mp hpiece
    exact absurd hzero (by decide)

/-- The last NUL is written behind the text. -/
theorem Printer.Behind.terminate {text : List UInt8} {p : Printer} (h : p.Behind text) :
    ∃ out shown rest, write p.out p.s (some 0) = some out ∧
      out = shown.map some ++ some 0 :: rest ∧ shown <+: text := by
  have hbuf : bufSize = 8192 := rfl
  have hle := h.le
  have hsize := h.size
  rw [h.s]
  rcases h.written with ⟨rest, hout⟩ | ⟨hfull, rest, hout⟩
  · cases rest with
    | nil =>
      rw [hout, List.append_nil, List.length_map] at hsize
      omega
    | cons old rest =>
      have hwrite := write_append (text.map some) rest old (some 0)
      rw [List.length_map] at hwrite
      exact ⟨_, text, rest, by rw [hout, hwrite], rfl, List.prefix_refl _⟩
  · have hshown : (text.take (bufSize - 2)).length = bufSize - 2 := by
      rw [List.length_take]
      omega
    refine ⟨p.out.set text.length (some 0), text.take (bufSize - 2),
      rest.set 0 (some 0), if_pos (by omega), ?_, List.take_prefix _ _⟩
    rw [hout, List.set_append_right _ _ (by rw [List.length_map]; omega), List.length_map, hshown,
      hfull]
    rfl

/-- Where no piece crosses the last byte the list is bounded. -/
theorem listsBounded_of_fits {book : AddrBook} {filter : Bool} (h : book.FitsBuffer filter) :
    book.ListsBounded filter := by
  rw [fitsBuffer_iff] at h
  obtain ⟨p, done, hp, hbehind, hdone⟩ := Printer.behind_start.printIfaces h
  obtain ⟨out, shown, rest, hwrite, hout, hshown⟩ := hbehind.terminate
  have hpre : shown <+: textOf (book.pieces filter) := by
    rw [← ifacePieces_interfaces]
    exact hshown.trans hdone
  refine ⟨{ p with out := out }, ?_, hbehind.unwrapped, shown, rest, hout, ?_, hpre⟩
  · simp only [issueNetworkGetAllIp, hp, hwrite, Option.bind_eq_bind, Option.bind_some]
    rfl
  · exact fun hzero => zero_notMem_textOf book filter (hpre.subset hzero)

/-- Where one does, the count wraps. -/
theorem not_listsBounded_of_not_fits {book : AddrBook} {filter : Bool}
    (h : ¬ book.FitsBuffer filter) : ¬ book.ListsBounded filter := by
  rintro ⟨p, hp, hun, -⟩
  rw [fitsBuffer_iff] at h
  obtain ⟨p', hp', hrest⟩ := Option.bind_eq_some_iff.mp hp
  obtain ⟨out, -, hout⟩ := Option.bind_eq_some_iff.mp hrest
  obtain rfl := Option.some.inj hout
  exact Printer.behind_start.not_unwrapped_printIfaces h hp' hun

/-- The list of addresses is bounded if and only if no piece of the full text crosses the
last byte of the buffer. -/
theorem listsBounded_iff (book : AddrBook) (filter : Bool) :
    book.ListsBounded filter ↔ book.FitsBuffer filter := by
  constructor
  · intro h
    by_contra hfits
    exact not_listsBounded_of_not_fits hfits h
  · exact listsBounded_of_fits

/-- The text as it stands in an array, if it fits. -/
def charArray (size : ℕ) (text : List UInt8) : Option (CharArray size) :=
  if h : 0 ∉ text ∧ text.length < size then some ⟨text, h.1, h.2⟩ else none

/-- A decimal digit. -/
def digit (n : ℕ) : UInt8 := UInt8.ofNat (0x30 + n % 10)

/-- Seven interfaces with 32 addresses each. -/
def sevenInterfaces : AddrBook where
  ipv4 := []
  ipv6 := (List.range 7).flatMap fun i => (List.range 32).filterMap fun j => do
    let addr ← charArray 46
      (lit "2001:db81:85a3:1111:2222:8a2e:3370:73" ++ [digit (j / 10), digit j])
    let interface ← charArray 16 (lit "eth" ++ [digit i])
    return { addr := addr, quality := .ratUniverse, interface := interface, valid := 3600 }
  bestQuality := .ratUniverse

/-- The twelfth address of the last one crosses the last byte. -/
theorem sevenInterfaces_not_listsBounded : ¬ sevenInterfaces.ListsBounded false := by
  apply not_listsBounded_of_not_fits
  rw [fitsBuffer_iff]
  decide +kernel

end Faceplate.Misc
