import Faceplate.Lib.Runs
import Faceplate.Video.Books
import Faceplate.Video.Drm2d

/-!
# References of flips

Each commit that asks for a flip event takes a reference on every display it shows, and
the event drops it. The event names a CRTC only, and `display_event` looks for it among
the displays in the list, so a display that has left the list cannot be found any more.
Every operation of a device keeps its books, except for an unbind during a flip.
-/

namespace Faceplate.Video

namespace DrmVideo

variable {β α : Type*} {ops : DrmOps β α} {video : DrmVideo β}

/-- The books of a device. -/
def books (video : DrmVideo β) : Books where
  counts d := (video.objs d).map (·.ref)
  crtcs d := (video.objs d).map (·.crtc)
  displays := video.displays
  users := video.users
  pending := video.pending

/-- What does not touch references and CRTCs is not in the books. -/
theorem books_modify (video : DrmVideo β) (d : ℕ) {f : DrmDisplay β → DrmDisplay β}
    (hf : ∀ disp, (f disp).ref = disp.ref ∧ (f disp).crtc = disp.crtc) :
    (video.modify d f).books = video.books := by
  have hmap : ∀ {γ : Type} (g : DrmDisplay β → γ), (∀ disp, g (f disp) = g disp) →
      (fun e => ((video.modify d f).objs e).map g) = fun e => (video.objs e).map g := by
    intro γ g hg
    funext e
    by_cases he : e = d
    · rw [he, objs_modify_self, Option.map_map]
      exact congrArg (Option.map · (video.objs d)) (funext hg)
    · rw [objs_modify_of_ne video he]
  simp only [books]
  rw [hmap (·.ref) fun disp => (hf disp).1, hmap (·.crtc) fun disp => (hf disp).2]
  rfl

theorem books_modifyHead (video : DrmVideo β) (d : ℕ) (f : Head β → Head β) :
    (video.modifyHead d f).books = video.books :=
  books_modify video d fun _ => ⟨rfl, rfl⟩

theorem books_displayRef (video : DrmVideo β) (d : ℕ) :
    (video.displayRef d).books = video.books.ref d := by
  have hobjs : ∀ {γ : Type} (g : DrmDisplay β → γ) (e : ℕ),
      ((video.displayRef d).objs e).map g = if e = d then (video.objs d).map fun disp =>
        g (if disp.ref = 0 then disp else { disp with ref := disp.ref + 1 }) else
          (video.objs e).map g := by
    intro γ g e
    by_cases he : e = d
    · simp [displayRef, he, Function.comp_def]
    · simp [displayRef, objs_modify_of_ne, he]
  unfold books Books.ref
  congr 1
  · funext e
    rw [hobjs]
    by_cases he : e = d
    · rw [if_pos he, he, Function.update_self]
      simp only [Refs.incr, Option.map_map]
      congr 1
      funext disp
      simp only [Function.comp_apply]
      split_ifs <;> rfl
    · rw [if_neg he, Function.update_of_ne he]
  · funext e
    rw [hobjs]
    by_cases he : e = d
    · rw [if_pos he, he]
      congr 1
      funext disp
      split_ifs <;> rfl
    · rw [if_neg he]

theorem books_displayUnref (video : DrmVideo β) (d : ℕ) :
    (video.displayUnref d).books = video.books.unref d := by
  have hupdate : ∀ {γ : Type} (f : ℕ → γ) (c : γ), f d = c → Function.update f d c = f := by
    rintro γ f c rfl
    exact Function.update_eq_self d f
  cases hobj : video.objs d with
  | none =>
    have hcount : video.books.counts d = none := by simp [books, hobj]
    have hcrtc : video.books.crtcs d = none := by simp [books, hobj]
    simp only [displayUnref, hobj, Books.unref, hcount, Refs.decr, if_true,
      hupdate _ _ hcount, hupdate _ _ hcrtc]
  | some disp =>
    have hcount : video.books.counts d = some disp.ref := by simp [books, hobj]
    simp only [displayUnref, hobj, Books.unref, hcount, Refs.decr]
    by_cases hzero : disp.ref = 0
    · rw [if_pos hzero, if_pos hzero, if_neg (by simp), hupdate _ _ hcount]
    by_cases hlast : disp.ref = 1
    · rw [if_neg hzero, if_pos hlast, if_neg hzero, if_pos hlast, if_pos rfl]
      simp only [books]
      congr 1
      · funext e
        by_cases he : e = d
        · simp [he]
        · simp [he]
      · funext e
        by_cases he : e = d
        · simp [he]
        · simp [he]
    · rw [if_neg hzero, if_neg hlast, if_neg hzero, if_neg hlast, if_neg (by simp)]
      simp only [books, modify]
      congr 1
      · funext e
        by_cases he : e = d
        · simp [he, hobj]
        · simp [he]
      · funext e
        by_cases he : e = d
        · simp [he, hobj]
        · simp [he]

theorem books_send (req : List Placed) (video : DrmVideo β) :
    (video.send req).books = video.books := rfl

theorem books_flip (ds : List ℕ) (video : DrmVideo β) :
    (video.flip ds).books = video.books.flip ds := by
  simp only [books, flip, flips, Books.flip, Option.map_map, Function.comp_def]

theorem books_displayEvent (video : DrmVideo β) (crtc : ℕ) :
    (video.displayEvent crtc).books = video.books.event crtc := by
  unfold displayEvent Books.event
  have hpending : video.books.pending = video.pending := rfl
  rw [hpending]
  cases video.pending.find? (·.1 == crtc) with
  | none => rfl
  | some owed =>
    have hfind : (fun d => (video.objs d).any (·.crtc == crtc)) =
        fun d => video.books.crtcs d == some crtc := by
      funext d
      cases hobj : video.objs d with
      | none => simp [books, hobj]
      | some disp => simp [books, hobj]
    dsimp only
    have hdisplays : video.books.displays = video.displays := rfl
    rw [hfind, hdisplays]
    cases video.displays.find? fun d => video.books.crtcs d == some crtc with
    | none => rfl
    | some d =>
      dsimp only
      rw [books_displayUnref, books_modify]
      · rfl
      · intro disp
        split_ifs <;> exact ⟨rfl, rfl⟩

theorem books_events (crtcs : List ℕ) (video : DrmVideo β) :
    (crtcs.foldl displayEvent video).books = crtcs.foldl Books.event video.books := by
  induction crtcs generalizing video with
  | nil => rfl
  | cons crtc crtcs ih =>
    rw [List.foldl_cons, List.foldl_cons, ih, books_displayEvent]

/-- Waiting for a flip is reading some events. -/
theorem books_drmDisplayWaitPflip (d : ℕ) (batches : List (List ℕ)) (video : DrmVideo β) :
    ∃ crtcs : List ℕ, (video.drmDisplayWaitPflip d batches).books =
      crtcs.foldl Books.event video.books := by
  induction batches generalizing video with
  | nil => exact ⟨[], rfl⟩
  | cons batch batches ih =>
    unfold drmDisplayWaitPflip
    split_ifs
    · obtain ⟨crtcs, hcrtcs⟩ := ih (batch.foldl displayEvent video)
      refine ⟨batch ++ crtcs, ?_⟩
      rw [hcrtcs, books_events, List.foldl_append]
    · exact ⟨[], rfl⟩

/-- Preparing the displays reads events and does nothing else to the books. -/
theorem books_prepareAll (ans : ModesetAnswers α) (ds : List ℕ) (video : DrmVideo β) :
    ∃ crtcs : List ℕ, (video.prepareAll ops ans ds).2.2.2.books =
      crtcs.foldl Books.event video.books := by
  induction ds generalizing video with
  | nil => exact ⟨[], rfl⟩
  | cons d ds ih =>
    obtain ⟨waited, hwait⟩ := books_drmDisplayWaitPflip d (ans.waits d) video
    unfold prepareAll
    dsimp only
    cases hobj : (video.drmDisplayWaitPflip d (ans.waits d)).objs d with
    | none =>
      obtain ⟨crtcs, hcrtcs⟩ := ih (video.drmDisplayWaitPflip d (ans.waits d))
      refine ⟨waited ++ crtcs, ?_⟩
      rw [hcrtcs, hwait, List.foldl_append]
    | some disp =>
      dsimp only
      split_ifs
      · refine ⟨waited, ?_⟩
        rw [books_modifyHead, hwait]
      · obtain ⟨crtcs, hcrtcs⟩ := ih ((video.drmDisplayWaitPflip d (ans.waits d)).modifyHead d
          fun _ => (ops.prepareModeset (video.drmDisplayWaitPflip d (ans.waits d)).legacy
            (ans.prep d) disp.head).2.1)
        refine ⟨waited ++ crtcs, ?_⟩
        rw [hcrtcs, books_modifyHead, hwait, List.foldl_append]

/-- When nothing fails, all displays are prepared. -/
theorem prepareAll_length (ans : ModesetAnswers α) {ds : List ℕ} {video : DrmVideo β}
    (h : video.books.Sound fun _ => 0) (hds : ∀ d ∈ ds, d ∈ video.displays)
    (hret : 0 ≤ (video.prepareAll ops ans ds).1) :
    (video.prepareAll ops ans ds).2.1 = ds.length := by
  induction ds generalizing video with
  | nil => rfl
  | cons d ds ih =>
    obtain ⟨waited, hwait⟩ := books_drmDisplayWaitPflip d (ans.waits d) video
    have hsound : (video.drmDisplayWaitPflip d (ans.waits d)).books.Sound fun _ => 0 := by
      rw [hwait]
      exact h.events waited
    have hdisplays : (video.drmDisplayWaitPflip d (ans.waits d)).displays = video.displays := by
      have := congrArg Books.displays hwait
      rwa [Books.events_displays] at this
    have hmem : d ∈ (video.drmDisplayWaitPflip d (ans.waits d)).displays := by
      rw [hdisplays]
      exact hds d List.mem_cons_self
    obtain ⟨crtc, hcrtc⟩ := hsound.crtcs_of_mem hmem
    obtain ⟨disp, hobj, -⟩ := Option.map_eq_some_iff.mp hcrtc
    unfold prepareAll at hret ⊢
    simp only [hobj] at hret ⊢
    split_ifs at hret ⊢ with hfail
    · omega
    · dsimp only at hret ⊢
      rw [ih (by rwa [books_modifyHead]) _ hret, List.length_cons]
      intro e he
      change e ∈ (video.drmDisplayWaitPflip d (ans.waits d)).displays
      exact hdisplays.symm ▸ hds e (List.mem_cons_of_mem _ he)

/-- The last loop drops the references if they are taken and the commit has failed. -/
theorem books_finishModeset (refsTaken : Bool) (ret : ℤ) (n : ℕ) (video : DrmVideo β) :
    (video.finishModeset ops refsTaken ret n).books =
      if ret ≠ 0 ∧ refsTaken = true then (video.displays.take n).foldl Books.unref video.books
      else video.books := by
  unfold finishModeset
  generalize video.displays.take n = ds
  induction ds generalizing video with
  | nil => simp
  | cons d ds ih =>
    rw [List.foldl_cons, ih]
    have hround : (finishDisplay ops refsTaken ret video d).books =
        if ret ≠ 0 ∧ refsTaken = true then video.books.unref d else video.books := by
      unfold finishDisplay
      dsimp only
      by_cases hret : ret ≠ 0
      · cases refsTaken with
        | false => simp [hret, books_modify]
        | true => simp [hret, books_displayUnref, books_modify]
      · rw [if_neg hret, if_neg fun h => hret h.1, books_modify, books_modify]
        · exact fun _ => ⟨rfl, rfl⟩
        · exact fun _ => ⟨rfl, rfl⟩
    rw [hround]
    split_ifs
    · rfl
    · rfl

theorem books_refAll (ds : List ℕ) (video : DrmVideo β) :
    (ds.foldl (fun video d => video.displayRef d) video).books =
      ds.foldl Books.ref video.books := by
  induction ds generalizing video with
  | nil => rfl
  | cons d ds ih => rw [List.foldl_cons, List.foldl_cons, ih, books_displayRef]

theorem displays_refAll (ds : List ℕ) (video : DrmVideo β) :
    (ds.foldl (fun video d => video.displayRef d) video).displays = video.displays := by
  induction ds generalizing video with
  | nil => rfl
  | cons d ds ih => exact (ih (video.displayRef d)).trans rfl

/-- A modeset commit takes a reference for each flip it starts, and gives all of them
back when it fails. -/
theorem sound_performModeset (ans : ModesetAnswers α) (h : video.books.Sound fun _ => 0) :
    (video.performModeset ops ans).2.books.Sound fun _ => 0 := by
  unfold performModeset
  cases halloc : ans.alloc with
  | false => exact h
  | true =>
    obtain ⟨crtcs, hbooks⟩ := @books_prepareAll _ _ ops ans video.displays video
    have hlength := @prepareAll_length _ _ ops ans video.displays video h fun d hd => hd
    revert hbooks hlength
    simp only [Bool.not_true, Bool.false_eq_true, if_false]
    generalize video.prepareAll ops ans video.displays = out
    obtain ⟨ret, n, req, prepared⟩ := out
    intro hbooks hlength
    dsimp only at hbooks hlength ⊢
    have hsound : prepared.books.Sound fun _ => 0 := by
      rw [hbooks]
      exact h.events crtcs
    have hdisplays : prepared.displays = video.displays := by
      have hlist := congrArg Books.displays hbooks
      rwa [Books.events_displays] at hlist
    by_cases hfail : ret < 0
    · rw [if_pos hfail, books_finishModeset, if_neg (by simp)]
      exact hsound
    rw [if_neg hfail]
    by_cases htest : ans.test < 0
    · rw [if_pos htest, books_finishModeset, if_neg (by simp)]
      exact hsound
    rw [if_neg htest]
    have hrefs : ((prepared.send req).displays.foldl Books.ref (prepared.send req).books).Sound
        fun d => 0 + (prepared.send req).displays.count d := hsound.refAll fun d hd => hd
    rw [← books_refAll] at hrefs
    have hlist := displays_refAll (prepared.send req).displays (prepared.send req)
    revert hrefs hlist
    generalize (prepared.send req).displays.foldl (fun video d => video.displayRef d)
      (prepared.send req) = held
    intro hrefs hlist
    by_cases hcommit : ans.commit = 0
    · -- the flips take over the references
      rw [if_pos hcommit, books_finishModeset, if_neg fun hret => hret.1 hcommit, books_flip,
        books_send]
      change (held.books.flip held.displays).Sound _
      rw [← hlist] at hrefs
      exact hrefs.flip fun d hd => hd
    · -- they are all dropped again
      rw [if_neg hcommit, books_finishModeset, if_pos ⟨hcommit, rfl⟩, books_send]
      change ((held.displays.take n).foldl Books.unref held.books).Sound _
      have hall : n = held.displays.length := by
        rw [hlength (by omega), hlist]
        exact congrArg List.length hdisplays.symm
      rw [hall, List.take_length, hlist]
      exact hrefs.unrefAll

theorem books_legacyDisplay (ans : ModesetAnswers α) (d : ℕ) (video : DrmVideo β) :
    ∃ crtcs : List ℕ, (legacyDisplay ops ans video d).books =
      crtcs.foldl Books.event video.books := by
  obtain ⟨crtcs, hwait⟩ := books_drmDisplayWaitPflip d (ans.waits d) video
  refine ⟨crtcs, ?_⟩
  unfold legacyDisplay
  dsimp only
  rw [← hwait]
  cases (video.drmDisplayWaitPflip d (ans.waits d)).objs d with
  | none => rfl
  | some disp =>
    dsimp only
    split_ifs
    · exact books_modifyHead ..
    · rw [books_modify, books_modifyHead]
      exact fun _ => ⟨rfl, rfl⟩
    · rw [books_modify, books_modify, books_modifyHead]
      · exact fun _ => ⟨rfl, rfl⟩
      · exact fun _ => ⟨rfl, rfl⟩

theorem sound_legacyModeset (ans : ModesetAnswers α) (h : video.books.Sound fun _ => 0) :
    (video.legacyModeset ops ans).2.books.Sound fun _ => 0 := by
  unfold legacyModeset
  dsimp only
  generalize video.displays = ds
  induction ds generalizing video with
  | nil => exact h
  | cons d ds ih =>
    obtain ⟨crtcs, hbooks⟩ := @books_legacyDisplay _ _ ops ans d video
    apply ih
    rw [hbooks]
    exact h.events crtcs

theorem sound_modeset (ans : ModesetAnswers α) (h : video.books.Sound fun _ => 0) :
    (video.modeset ops ans).2.books.Sound fun _ => 0 := by
  unfold modeset
  split_ifs
  · exact sound_legacyModeset ans h
  · exact sound_performModeset ans h

theorem books_modifyHeads (ds : List ℕ) (f : Head β → Head β) (video : DrmVideo β) :
    (ds.foldl (fun video d => video.modifyHead d f) video).books = video.books := by
  induction ds generalizing video with
  | nil => rfl
  | cons d ds ih => rw [List.foldl_cons, ih, books_modifyHead]

theorem sound_tryModeset (ans retry : ModesetAnswers α) (h : video.books.Sound fun _ => 0) :
    (video.tryModeset ops ans retry).2.books.Sound fun _ => 0 := by
  have hfirst : (video.modeset ops ans).2.books.Sound fun _ => 0 := sound_modeset ans h
  unfold tryModeset
  dsimp only
  split_ifs
  · exact hfirst
  · exact hfirst
  · rw [books_modifyHeads]
    apply sound_modeset
    rwa [books_modifyHeads]

/-- A display that is there is in the list. -/
theorem mem_displays_of_objs (h : video.books.Sound fun _ => 0) {d : ℕ} {disp : DrmDisplay β}
    (hobj : video.objs d = some disp) : d ∈ video.displays := by
  have hcount : video.books.counts d = some disp.ref := by simp [books, hobj]
  rw [h.counts d] at hcount
  apply h.mem_of_holders
  by_contra hnobody
  rw [Refs.counted_eq_none_iff.mpr (by omega)] at hcount
  cases hcount

/-- A page flip takes its reference after the kernel has accepted it. -/
theorem sound_drmDisplaySwap (d : ℕ) (fb : Option (ℕ × ℕ)) (props : Bool) (commit : ℤ)
    (h : video.books.Sound fun _ => 0) :
    (video.drmDisplaySwap d fb props commit).2.books.Sound fun _ => 0 := by
  unfold drmDisplaySwap
  cases hobj : video.objs d with
  | none => exact h
  | some disp =>
    dsimp only
    by_cases hdpms : disp.dpms ≠ .on
    · rw [if_pos hdpms]
      exact h
    rw [if_neg hdpms]
    by_cases hvsync : disp.vsync = true
    · rw [if_pos hvsync]
      exact h
    rw [if_neg hvsync]
    by_cases hprepare : (drmPrepareCommit video.legacy props fb disp.head).1 ≠ 0
    · rw [if_pos hprepare]
      exact h
    rw [if_neg hprepare]
    have hsent : (if video.legacy = true then video else video.send
        (drmPrepareCommit video.legacy props fb disp.head).2.toList).books = video.books := by
      split_ifs
      · rfl
      · rfl
    revert hsent
    generalize (if video.legacy = true then video else video.send
      (drmPrepareCommit video.legacy props fb disp.head).2.toList) = sent
    intro hsent
    by_cases hcommit : commit ≠ 0
    · rw [if_pos hcommit, hsent]
      exact h
    rw [if_neg hcommit]
    dsimp only
    have hmem : ∀ e ∈ [d], e ∈ video.displays := by
      intro e he
      rw [List.mem_singleton.mp he]
      exact mem_displays_of_objs h hobj
    rw [books_modify, books_displayRef, books_flip, hsent]
    · exact (h.refAll hmem).flip hmem
    · exact fun _ => ⟨rfl, rfl⟩

theorem sound_displaySwap (d : ℕ) (ans : α) (props : Bool) (commit : ℤ)
    (h : video.books.Sound fun _ => 0) :
    (video.displaySwap ops d ans props commit).books.Sound fun _ => 0 := by
  unfold displaySwap
  cases video.objs d with
  | none => exact h
  | some disp =>
    dsimp only
    split_ifs
    · exact h
    cases ops.swapFb ans disp.head with
    | none => exact h
    | some fb =>
      dsimp only
      split_ifs
      · exact sound_drmDisplaySwap d fb props commit h
      · rw [books_modifyHead]
        exact sound_drmDisplaySwap d fb props commit h

theorem books_drmDisplayPflip (d : ℕ) (video : DrmVideo β) :
    (video.drmDisplayPflip ops d).books = video.books := by
  apply books_modify
  intro disp
  split_ifs
  · exact ⟨rfl, rfl⟩
  · exact ⟨rfl, rfl⟩

theorem books_displaySetDpms (d : ℕ) (dpms : Dpms) (ok : Bool) (video : DrmVideo β) :
    (video.displaySetDpms d dpms ok).books = video.books := by
  apply books_modify
  intro disp
  split_ifs
  · exact ⟨rfl, rfl⟩
  · exact ⟨rfl, rfl⟩

theorem books_bound (video : DrmVideo β) (d crtc : ℕ) (online vsync pflip needRedraw : Bool)
    (dpms : Dpms) (head : Head β) :
    ({ video with
      objs := Function.update video.objs d
        (some ⟨1, crtc, online, vsync, pflip, needRedraw, dpms, head⟩)
      displays := video.displays ++ [d] } : DrmVideo β).books = video.books.bind d crtc := by
  unfold books Books.bind
  congr 1
  · funext e
    by_cases he : e = d
    · simp [he]
    · simp [he]
  · funext e
    by_cases he : e = d
    · simp [he]
    · simp [he]

/-- A display is bound to a CRTC that no display in the list uses. -/
theorem sound_bindDisplay (data : β) (d : ℕ) (conn : Connector)
    (h : video.books.Sound fun _ => 0) :
    (video.bindDisplay data d conn).books.Sound fun _ => 0 := by
  unfold bindDisplay
  by_cases hfree : (video.objs d).isSome = true
  · rw [if_pos hfree]
    exact h
  rw [if_neg hfree]
  cases hfind : conn.crtcs.find? (!video.isCrtcInUse ·) with
  | none => exact h
  | some crtc =>
    dsimp only
    split_ifs with hok
    · exact h
    have hobj : video.objs d = none := by simpa using hfree
    have hunused : ∀ e ∈ video.displays, (video.objs e).map (·.crtc) ≠ some crtc := by
      intro e he hcrtc
      have hnot := List.find?_some hfind
      obtain ⟨disp, hdisp, rfl⟩ := Option.map_eq_some_iff.mp hcrtc
      have huse : video.isCrtcInUse disp.crtc = true :=
        List.any_eq_true.mpr ⟨e, he, by simp [hdisp]⟩
      simp [huse] at hnot
    rw [books_bound]
    apply h.bind
    · simp [books, hobj]
    · exact hunused

theorem books_users (video : DrmVideo β) (users : ℕ → ℕ) :
    ({ video with users := users } : DrmVideo β).books = { video.books with users := users } :=
  rfl

theorem sound_acquire (d : ℕ) (h : video.books.Sound fun _ => 0) :
    (video.acquire d).books.Sound fun _ => 0 := by
  cases hobj : video.objs d with
  | none =>
    simp only [acquire, hobj, Option.isSome_none, Bool.false_eq_true, if_false]
    exact h
  | some disp =>
    have hacquire : (video.acquire d).books = video.books.acquire d := by
      unfold acquire
      rw [if_pos (by rw [hobj]; rfl), books_users, books_displayRef]
      rfl
    rw [hacquire]
    exact h.acquire (mem_displays_of_objs h hobj)

theorem books_release {d : ℕ} (husers : video.users d ≠ 0) :
    (video.release d).books = video.books.release d := by
  unfold release
  rw [if_neg husers, books_users, books_displayUnref]
  rfl

theorem sound_release (d : ℕ) (h : video.books.Sound fun _ => 0) :
    (video.release d).books.Sound fun _ => 0 := by
  by_cases husers : video.users d = 0
  · unfold release
    rwa [if_pos husers]
  · rw [books_release husers]
    exact h.release husers

/-- When all users have let go, nobody outside holds the display. -/
theorem sound_releases (d : ℕ) (h : video.books.Sound fun _ => 0) :
    ((release d)^[video.users d] video).books.Sound (fun _ => 0) ∧
      ((release d)^[video.users d] video).users d = 0 ∧
      ((release d)^[video.users d] video).displays = video.displays ∧
      ((release d)^[video.users d] video).pending = video.pending := by
  generalize hn : video.users d = n
  induction n generalizing video with
  | zero => exact ⟨h, hn, rfl, rfl⟩
  | succ n ih =>
    have husers : video.users d ≠ 0 := by omega
    have hbooks := books_release husers
    have hless : (video.release d).users d = n := by
      have hcount := congrArg (fun b => b.users d) hbooks
      simp only [Books.release, Function.update_self] at hcount
      exact hcount.trans (by change video.users d - 1 = n; omega)
    obtain ⟨hsound, hnone, hdisplays, hpending⟩ := ih (sound_release d h) hless
    rw [Function.iterate_succ_apply]
    refine ⟨hsound, hnone, hdisplays.trans ?_, hpending.trans ?_⟩
    · exact congrArg Books.displays hbooks
    · exact congrArg Books.pending hbooks

/-- A display leaves the list and is freed, if no flip of it is owed. -/
theorem sound_displayUnbind {d : ℕ} (h : video.books.Sound fun _ => 0)
    (hflips : video.books.owedFlips d = 0) :
    (video.displayUnbind d).books.Sound fun _ => 0 := by
  unfold displayUnbind
  split_ifs with hmem
  · obtain ⟨hsound, hnone, hdisplays, hpending⟩ := sound_releases d h
    dsimp only
    rw [books_displayUnref]
    apply hsound.unlink
    · change d ∈ ((release d)^[video.users d] video).displays
      rwa [hdisplays]
    · exact hnone
    · simpa [Books.owedFlips, books, hpending] using hflips
  · exact h

end DrmVideo

/-- Each display has one reference for the list, one for each user and one for each flip
that the kernel still has to report, and is there as long as one of these is. -/
def DrmVideo.Balanced {β : Type*} (video : DrmVideo β) : Prop :=
  ∀ d, (video.objs d).map (·.ref) =
    Refs.counted (video.users d + video.displays.count d + (video.pending.map Prod.snd).count d)

/-- No display is unbound while a flip of it is owed. -/
def UnbindMeets {β α : Type*} (video : DrmVideo β) : DrmEvent α → Prop
  | .unbind d => (video.pending.map Prod.snd).count d = 0
  | _ => True

section Runs

variable {β α : Type*} (ops : DrmOps β α) (data : β)

theorem sound_new (legacy useOriginal : Bool) (desired : ℕ × ℕ) :
    (DrmVideo.new legacy useOriginal desired : DrmVideo β).books.Sound fun _ => 0 := by
  refine ⟨fun d => rfl, fun d => Iff.rfl, List.nodup_nil, ?_, ?_, ?_⟩
  · intro d hd
    exact absurd rfl hd
  · intro owed howed
    cases howed
  · intro d hd
    cases hd

theorem sound_step (video : DrmVideo β) (event : DrmEvent α)
    (h : video.books.Sound fun _ => 0) (hmeets : UnbindMeets video event) :
    (video.step ops data event).books.Sound fun _ => 0 := by
  cases event with
  | bind d conn => exact DrmVideo.sound_bindDisplay data d conn h
  | unbind d => exact DrmVideo.sound_displayUnbind h hmeets
  | modeset ans retry => exact DrmVideo.sound_tryModeset ans retry h
  | swap d ans props commit => exact DrmVideo.sound_displaySwap d ans props commit h
  | flipEvent crtc =>
    change (video.displayEvent crtc).books.Sound _
    rw [DrmVideo.books_displayEvent]
    exact h.event crtc
  | pflip d =>
    change (video.drmDisplayPflip ops d).books.Sound _
    rw [DrmVideo.books_drmDisplayPflip]
    exact h
  | setDpms d dpms ok =>
    change (video.displaySetDpms d dpms ok).books.Sound _
    rw [DrmVideo.books_displaySetDpms]
    exact h
  | acquire d => exact DrmVideo.sound_acquire d h
  | release d => exact DrmVideo.sound_release d h
  | awake on => exact h

/-- In a run in which no display is unbound while a flip of it is owed, every flip and
modeset commit drops the references that it took, no display is freed before its last
flip event, and none is kept after that. -/
theorem balanced_of_unbindMeets (legacy useOriginal : Bool) (desired : ℕ × ℕ)
    (events : List (DrmEvent α))
    (hmeets : Runs.Along (DrmVideo.step ops data) UnbindMeets
      (DrmVideo.new legacy useOriginal desired) events) :
    Runs.Always (DrmVideo.step ops data) DrmVideo.Balanced
      (DrmVideo.new legacy useOriginal desired) events := by
  apply Runs.Along.always (J := fun video => video.books.Sound fun _ => 0)
  · intro video h d
    exact h.counts d
  · exact fun video event h hevent => sound_step ops data video event h hevent
  · exact sound_new legacy useOriginal desired
  · exact hmeets

end Runs

/-- One connected output with one mode, driven by CRTC 5. -/
def soleConnector : Connector :=
  { crtcs := [5], ok := true, dpms := .on, modes := [⟨1920, 1080, 0, true⟩], crtcMode := none }

/-- A display is bound and used, flips twice, and is unbound when both events are there. -/
def flipsThenUnbind : List (DrmEvent Drm2dAnswers) :=
  [.bind 0 soleConnector, .modeset willingAnswers willingAnswers, .acquire 0, .flipEvent 5,
    .pflip 0, .swap 0 roomyAnswers true 0, .flipEvent 5, .unbind 0]

theorem balanced_flipsThenUnbind :
    Runs.Along (DrmVideo.step drm2dOps Drm2dDisplay.new) UnbindMeets
      (DrmVideo.new false false (0, 0)) flipsThenUnbind ∧
    Runs.Always (DrmVideo.step drm2dOps Drm2dDisplay.new) DrmVideo.Balanced
      (DrmVideo.new false false (0, 0)) flipsThenUnbind := by
  have hmeets : Runs.Along (DrmVideo.step drm2dOps Drm2dDisplay.new) UnbindMeets
      (DrmVideo.new false false (0, 0)) flipsThenUnbind :=
    ⟨trivial, trivial, trivial, trivial, trivial, trivial, trivial, rfl, trivial⟩
  exact ⟨hmeets, balanced_of_unbindMeets drm2dOps Drm2dDisplay.new _ _ _ _ hmeets⟩

/-- A display is unplugged before the flip of its modeset is reported. Its event finds no
display, and the display is kept for ever. -/
def unboundInFlight : List (DrmEvent Drm2dAnswers) :=
  [.bind 0 soleConnector, .modeset willingAnswers willingAnswers, .unbind 0, .flipEvent 5]

theorem unboundInFlight_not_balanced :
    ¬ Runs.Always (DrmVideo.step drm2dOps Drm2dDisplay.new) DrmVideo.Balanced
      (DrmVideo.new false false (0, 0)) unboundInFlight := by
  intro h
  have hkept := h.last 0
  revert hkept
  decide

end Faceplate.Video
