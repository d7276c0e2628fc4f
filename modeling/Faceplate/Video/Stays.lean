import Faceplate.Video.FlipRefs

/-!
# What a modeset leaves alone

Setting modes, flips and references never move a display to another CRTC, take it out of
the list or put it offline; they only free displays that nobody holds. A modeset of an
atomic device that succeeds puts all displays online.
-/

namespace Faceplate.Video

/-- The list and the flags of the device are as before. Displays may be freed or get
online, and stay on their CRTC. -/
structure Stays {β : Type*} (video next : DrmVideo β) : Prop where
  displays : next.displays = video.displays
  legacy : next.legacy = video.legacy
  awake : next.awake = video.awake
  objs : ∀ d disp, next.objs d = some disp →
    ∃ old, video.objs d = some old ∧ disp.crtc = old.crtc ∧ (old.online → disp.online)

namespace Stays

variable {β α : Type*} {ops : DrmOps β α} {video next last : DrmVideo β}

theorem refl (video : DrmVideo β) : Stays video video :=
  ⟨rfl, rfl, rfl, fun _ disp hobj => ⟨disp, hobj, rfl, id⟩⟩

theorem trans (h : Stays video next) (hnext : Stays next last) : Stays video last := by
  refine ⟨hnext.displays.trans h.displays, hnext.legacy.trans h.legacy,
    hnext.awake.trans h.awake, ?_⟩
  intro d disp hobj
  obtain ⟨mid, hmid, hcrtc, honline⟩ := hnext.objs d disp hobj
  obtain ⟨old, hold, hcrtc', honline'⟩ := h.objs d mid hmid
  exact ⟨old, hold, hcrtc.trans hcrtc', fun h => honline (honline' h)⟩

/-- Books, flips and commits may change as they like. -/
theorem of_objs (hdisplays : next.displays = video.displays) (hlegacy : next.legacy = video.legacy)
    (hawake : next.awake = video.awake) (hobjs : next.objs = video.objs) : Stays video next :=
  ⟨hdisplays, hlegacy, hawake, fun _ disp hobj => ⟨disp, hobjs ▸ hobj, rfl, id⟩⟩

theorem modify (video : DrmVideo β) (d : ℕ) {f : DrmDisplay β → DrmDisplay β}
    (hf : ∀ disp, (f disp).crtc = disp.crtc ∧ (disp.online → (f disp).online)) :
    Stays video (video.modify d f) := by
  refine ⟨rfl, rfl, rfl, fun e disp hobj => ?_⟩
  rcases DrmVideo.objs_of_modify hobj with ⟨he, old, hold, rfl⟩ | hsame
  · exact ⟨old, he ▸ hold, hf old⟩
  · exact ⟨disp, hsame, rfl, id⟩

theorem modifyHead (video : DrmVideo β) (d : ℕ) (f : Head β → Head β) :
    Stays video (video.modifyHead d f) :=
  modify video d fun _ => ⟨rfl, id⟩

theorem displayRef (video : DrmVideo β) (d : ℕ) : Stays video (video.displayRef d) := by
  apply modify
  intro disp
  split_ifs
  · exact ⟨rfl, id⟩
  · exact ⟨rfl, id⟩

theorem displayUnref (video : DrmVideo β) (d : ℕ) : Stays video (video.displayUnref d) := by
  unfold DrmVideo.displayUnref
  cases video.objs d with
  | none => exact refl video
  | some disp =>
    dsimp only
    split_ifs
    · exact refl video
    · refine ⟨rfl, rfl, rfl, fun e other hobj => ?_⟩
      dsimp only at hobj
      by_cases he : e = d
      · simp [he] at hobj
      · rw [Function.update_of_ne he] at hobj
        exact ⟨other, hobj, rfl, id⟩
    · exact modify video d fun _ => ⟨rfl, id⟩

theorem displayEvent (video : DrmVideo β) (crtc : ℕ) : Stays video (video.displayEvent crtc) := by
  unfold DrmVideo.displayEvent
  cases video.pending.find? (·.1 == crtc) with
  | none => exact refl video
  | some owed =>
    have herase : Stays video { video with pending := video.pending.erase owed } :=
      of_objs rfl rfl rfl rfl
    dsimp only
    split
    · exact herase
    · refine (herase.trans (modify _ _ ?_)).trans (displayUnref _ _)
      intro disp
      split_ifs
      · exact ⟨rfl, id⟩
      · exact ⟨rfl, id⟩

theorem foldl {ι : Type*} {f : DrmVideo β → ι → DrmVideo β}
    (hf : ∀ video i, Stays video (f video i)) (is : List ι) (video : DrmVideo β) :
    Stays video (is.foldl f video) := by
  induction is generalizing video with
  | nil => exact refl video
  | cons i is ih => exact (hf video i).trans (ih (f video i))

theorem drmDisplayWaitPflip (d : ℕ) (batches : List (List ℕ)) (video : DrmVideo β) :
    Stays video (video.drmDisplayWaitPflip d batches) := by
  induction batches generalizing video with
  | nil => exact refl video
  | cons batch batches ih =>
    unfold DrmVideo.drmDisplayWaitPflip
    split_ifs
    · exact (foldl displayEvent batch video).trans (ih _)
    · exact refl video

theorem prepareAll (ans : ModesetAnswers α) (ds : List ℕ) (video : DrmVideo β) :
    Stays video (video.prepareAll ops ans ds).2.2.2 := by
  induction ds generalizing video with
  | nil => exact refl video
  | cons d ds ih =>
    have hwait := drmDisplayWaitPflip d (ans.waits d) video
    unfold DrmVideo.prepareAll
    dsimp only
    split
    · exact hwait.trans (ih _)
    · split_ifs
      · apply hwait.trans
        dsimp only
        exact modifyHead ..
      · apply hwait.trans
        apply (modifyHead ..).trans
        exact ih _

theorem finishDisplay (refsTaken : Bool) (ret : ℤ) (video : DrmVideo β) (d : ℕ) :
    Stays video (DrmVideo.finishDisplay ops refsTaken ret video d) := by
  have hdone : Stays video (video.modify d fun disp =>
      { disp with head := ops.doneModeset disp.online ret disp.head }) :=
    modify video d fun disp => ⟨rfl, id⟩
  unfold DrmVideo.finishDisplay
  dsimp only
  split_ifs
  · exact hdone.trans (displayUnref _ d)
  · exact hdone
  · apply hdone.trans
    apply modify
    exact fun disp => ⟨rfl, fun _ => rfl⟩

theorem finishModeset (refsTaken : Bool) (ret : ℤ) (n : ℕ) (video : DrmVideo β) :
    Stays video (video.finishModeset ops refsTaken ret n) :=
  foldl (finishDisplay refsTaken ret) _ video

theorem send (req : List Placed) (video : DrmVideo β) : Stays video (video.send req) :=
  of_objs rfl rfl rfl rfl

theorem flip (ds : List ℕ) (video : DrmVideo β) : Stays video (video.flip ds) :=
  of_objs rfl rfl rfl rfl

theorem performModeset (ans : ModesetAnswers α) (video : DrmVideo β) :
    Stays video (video.performModeset ops ans).2 := by
  have hprep := @prepareAll β α ops ans video.displays video
  unfold DrmVideo.performModeset
  dsimp only
  split_ifs
  · exact refl video
  · exact hprep.trans (finishModeset ..)
  · exact (hprep.trans (send ..)).trans (finishModeset ..)
  · exact ((((hprep.trans (send ..)).trans (foldl displayRef _ _)).trans (send ..)).trans
      (flip ..)).trans (finishModeset ..)
  · exact (((hprep.trans (send ..)).trans (foldl displayRef _ _)).trans (send ..)).trans
      (finishModeset ..)

theorem legacyDisplay (ans : ModesetAnswers α) (video : DrmVideo β) (d : ℕ) :
    Stays video (DrmVideo.legacyDisplay ops ans video d) := by
  have hwait := drmDisplayWaitPflip d (ans.waits d) video
  unfold DrmVideo.legacyDisplay
  dsimp only
  split
  · exact hwait
  · apply hwait.trans
    split_ifs
    · exact modifyHead ..
    · apply (modifyHead ..).trans
      apply modify
      exact fun disp => ⟨rfl, id⟩
    · apply (modifyHead ..).trans
      apply (modify _ d _).trans
      · apply modify
        exact fun disp => ⟨rfl, fun _ => rfl⟩
      · exact fun disp => ⟨rfl, id⟩

theorem modeset (ans : ModesetAnswers α) (video : DrmVideo β) :
    Stays video (video.modeset ops ans).2 := by
  unfold DrmVideo.modeset
  split_ifs
  · exact foldl (legacyDisplay ans) _ video
  · exact performModeset ans video

theorem tryModeset (ans retry : ModesetAnswers α) (video : DrmVideo β) :
    Stays video (video.tryModeset ops ans retry).2 := by
  have hfirst := @modeset β α ops ans video
  unfold DrmVideo.tryModeset
  dsimp only
  split_ifs
  · exact hfirst
  · exact hfirst
  · apply hfirst.trans
    apply (foldl (fun video d => modifyHead video d DrmVideo.useDefault) _ _).trans
    apply (modeset retry _).trans
    exact foldl (fun video d => modifyHead video d _) _ _

/-- Where a commit has worked, the prepared displays are online. -/
theorem finishDisplays_online {refsTaken : Bool} {ds : List ℕ} {video : DrmVideo β} {d : ℕ}
    (hd : d ∈ ds) {disp : DrmDisplay β}
    (hobj : (ds.foldl (DrmVideo.finishDisplay ops refsTaken 0) video).objs d = some disp) :
    disp.online = true := by
  induction ds generalizing video with
  | nil => cases hd
  | cons e ds ih =>
    rcases List.mem_cons.mp hd with rfl | hd
    · obtain ⟨old, hold, -, honline⟩ :=
        (foldl (@finishDisplay β α ops refsTaken 0) ds _).objs d disp hobj
      apply honline
      rw [DrmVideo.finishDisplay, if_neg (not_not.mpr rfl), DrmVideo.objs_modify_self] at hold
      obtain ⟨mid, -, rfl⟩ := Option.map_eq_some_iff.mp hold
      rfl
    · exact ih hd hobj

/-- A display in the list is there after a modeset. -/
theorem exists_of_mem (h : Stays video next) (hsound : next.books.Sound fun _ => 0) {d : ℕ}
    (hd : d ∈ video.displays) : ∃ disp, next.objs d = some disp := by
  obtain ⟨crtc, hcrtc⟩ := hsound.crtcs_of_mem (h.displays.symm ▸ hd)
  obtain ⟨disp, hobj, -⟩ := Option.map_eq_some_iff.mp hcrtc
  exact ⟨disp, hobj⟩

theorem performModeset_online {ans : ModesetAnswers α} (h : video.books.Sound fun _ => 0)
    (hret : (video.performModeset ops ans).1 = 0) {d : ℕ} (hd : d ∈ video.displays)
    {disp : DrmDisplay β} (hobj : (video.performModeset ops ans).2.objs d = some disp) :
    disp.online = true := by
  have hlength := @DrmVideo.prepareAll_length _ _ ops ans video.displays video h fun d hd => hd
  have hprep := @prepareAll β α ops ans video.displays video
  revert hret hobj hlength hprep
  unfold DrmVideo.performModeset
  generalize video.prepareAll ops ans video.displays = out
  obtain ⟨ret, n, req, prepared⟩ := out
  dsimp only
  intro hret hobj hlength hprep
  split_ifs at hret hobj with halloc hfail htest hcommit
  · change enomem = 0 at hret
    cases hret
  · dsimp only at hret
    omega
  · change eagain = 0 at hret
    cases hret
  · rw [hcommit, DrmVideo.finishModeset] at hobj
    apply finishDisplays_online _ hobj
    rw [hlength (by omega)]
    have hlist := DrmVideo.displays_refAll prepared.displays (prepared.send req)
    change d ∈ (((prepared.displays.foldl _ (prepared.send req)).displays).take _)
    rw [hlist]
    change d ∈ prepared.displays.take _
    rw [hprep.displays, List.take_length]
    exact hd
  · exact absurd hret hcommit

/-- A modeset of an atomic device that reports success leaves all displays online. -/
theorem tryModeset_online {ans retry : ModesetAnswers α} (h : video.books.Sound fun _ => 0)
    (hlegacy : video.legacy = false) (hret : (video.tryModeset ops ans retry).1 = 0) {d : ℕ}
    (hd : d ∈ video.displays) {disp : DrmDisplay β}
    (hobj : (video.tryModeset ops ans retry).2.objs d = some disp) : disp.online = true := by
  have hatomic : ∀ {video : DrmVideo β} (ans : ModesetAnswers α), video.legacy = false →
      video.modeset ops ans = video.performModeset ops ans := by
    intro video ans hlegacy
    rw [DrmVideo.modeset, hlegacy, if_neg Bool.false_ne_true]
  have hfirst := @performModeset β α ops ans video
  have hsound := @DrmVideo.sound_performModeset β α ops video ans h
  revert hret hobj
  unfold DrmVideo.tryModeset
  rw [hatomic ans hlegacy]
  dsimp only
  intro hret hobj
  split_ifs at hret hobj with hagain hempty
  · exact performModeset_online h hret hd hobj
  · rw [not_not.mp hagain] at hret
    cases hret
  · -- the second attempt starts with other modes
    generalize (video.performModeset ops ans).2 = first at *
    have hstays := foldl (fun video d => modifyHead video d DrmVideo.useDefault)
      first.displays first
    have hbooks := DrmVideo.books_modifyHeads first.displays DrmVideo.useDefault first
    revert hret hobj hstays hbooks
    generalize first.displays.foldl
      (fun video d => video.modifyHead d DrmVideo.useDefault) first = second
    intro hret hobj hstays hbooks
    have hlegacy' : second.legacy = false := by rw [hstays.legacy, hfirst.legacy, hlegacy]
    rw [hatomic retry hlegacy'] at hret hobj
    obtain ⟨old, hold, -, honline⟩ :=
      (foldl (fun video d => modifyHead video d _) _ _).objs d disp hobj
    apply honline
    apply performModeset_online (hbooks ▸ hsound) hret _ hold
    rw [hstays.displays, hfirst.displays]
    exact hd

theorem drmDisplaySwap (d : ℕ) (fb : Option (ℕ × ℕ)) (props : Bool) (commit : ℤ)
    (video : DrmVideo β) : Stays video (video.drmDisplaySwap d fb props commit).2 := by
  unfold DrmVideo.drmDisplaySwap
  cases video.objs d with
  | none => exact refl video
  | some disp =>
    dsimp only
    split_ifs
    · exact refl video
    · exact refl video
    · exact refl video
    · exact refl video
    · exact send _ video
    · exact (flip [d] video).trans ((displayRef _ d).trans (modify _ d fun _ => ⟨rfl, id⟩))
    · exact (send _ video).trans
        ((flip [d] _).trans ((displayRef _ d).trans (modify _ d fun _ => ⟨rfl, id⟩)))

theorem displaySwap (d : ℕ) (ans : α) (props : Bool) (commit : ℤ) (video : DrmVideo β) :
    Stays video (video.displaySwap ops d ans props commit) := by
  unfold DrmVideo.displaySwap
  cases video.objs d with
  | none => exact refl video
  | some disp =>
    dsimp only
    split_ifs
    · exact refl video
    · cases ops.swapFb ans disp.head with
      | none => exact refl video
      | some fb =>
        have hswap := drmDisplaySwap d fb props commit video
        dsimp only
        split_ifs
        · exact hswap
        · exact hswap.trans (modifyHead _ d _)

theorem drmDisplayPflip (d : ℕ) (video : DrmVideo β) :
    Stays video (video.drmDisplayPflip ops d) := by
  apply modify
  intro disp
  split_ifs
  · exact ⟨rfl, id⟩
  · exact ⟨rfl, id⟩

theorem displaySetDpms (d : ℕ) (dpms : Dpms) (ok : Bool) (video : DrmVideo β) :
    Stays video (video.displaySetDpms d dpms ok) := by
  apply modify
  intro disp
  split_ifs
  · exact ⟨rfl, id⟩
  · exact ⟨rfl, id⟩

theorem acquire (d : ℕ) (video : DrmVideo β) : Stays video (video.acquire d) := by
  unfold DrmVideo.acquire
  split_ifs
  · exact (displayRef video d).trans (of_objs rfl rfl rfl rfl)
  · exact refl video

theorem release (video : DrmVideo β) (d : ℕ) : Stays video (video.release d) := by
  unfold DrmVideo.release
  split_ifs
  · exact refl video
  · exact (displayUnref video d).trans (of_objs rfl rfl rfl rfl)

theorem releases (d n : ℕ) (video : DrmVideo β) :
    Stays video ((DrmVideo.release d)^[n] video) := by
  induction n generalizing video with
  | zero => exact refl video
  | succ n ih => exact (release video d).trans (ih (video.release d))

/-- The same with another list. -/
theorem relist (h : Stays video next) (ds : List ℕ) :
    Stays { video with displays := ds } { next with displays := ds } :=
  ⟨rfl, h.legacy, h.awake, h.objs⟩

theorem displayUnbind {d : ℕ} (hd : d ∈ video.displays) :
    Stays { video with displays := video.displays.erase d } (video.displayUnbind d) := by
  have hreleases := releases d (video.users d) video
  unfold DrmVideo.displayUnbind
  rw [if_pos hd]
  dsimp only
  rw [hreleases.displays]
  exact (hreleases.relist _).trans (displayUnref _ d)

end Stays

end Faceplate.Video
