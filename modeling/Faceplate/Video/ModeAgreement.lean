import Faceplate.Lib.Runs
import Faceplate.Video.Drm2d

/-!
# Modes, blobs and framebuffers

The blob of a display is made of its current mode when it is bound, and its buffers have
the size of the mode that is current when they are made. The second attempt to set the
modes points all displays at their default mode and makes buffers anew where there are
none, but the blobs stay. This file finds the condition under which all that a commit
says about a display is of one mode.
-/

namespace Faceplate.Video

/-- Blob, framebuffer and plane are those of the current mode. -/
def Placed.Agrees (placed : Placed) : Prop :=
  placed.blob = placed.mode ∧ placed.fb = some placed.mode.size ∧ placed.plane = placed.mode.size

instance : DecidablePred Placed.Agrees :=
  fun _ => inferInstanceAs (Decidable (_ ∧ _ ∧ _))

/-- All commits that a device has sent are of one mode for each display. -/
def ModesAgree {β : Type*} (video : DrmVideo β) : Prop :=
  ∀ req ∈ video.commits, ∀ placed ∈ req, placed.Agrees

/-- Displays, heads and commits are as before, except that displays may be freed. -/
structure Keeps {β : Type*} (video next : DrmVideo β) : Prop where
  displays : next.displays = video.displays
  commits : next.commits = video.commits
  objs : ∀ d disp, next.objs d = some disp →
    ∃ old, video.objs d = some old ∧ disp.head = old.head ∧ disp.online = old.online

namespace Keeps

variable {β α : Type*} {video next last : DrmVideo β}

theorem refl (video : DrmVideo β) : Keeps video video :=
  ⟨rfl, rfl, fun _ disp hobj => ⟨disp, hobj, rfl, rfl⟩⟩

theorem trans (h : Keeps video next) (hnext : Keeps next last) : Keeps video last := by
  refine ⟨hnext.displays.trans h.displays, hnext.commits.trans h.commits, ?_⟩
  intro d disp hobj
  obtain ⟨mid, hmid, hhead, honline⟩ := hnext.objs d disp hobj
  obtain ⟨old, hold, hhead', honline'⟩ := h.objs d mid hmid
  exact ⟨old, hold, hhead.trans hhead', honline.trans honline'⟩

theorem modify (video : DrmVideo β) (d : ℕ) {f : DrmDisplay β → DrmDisplay β}
    (hf : ∀ disp, (f disp).head = disp.head ∧ (f disp).online = disp.online) :
    Keeps video (video.modify d f) := by
  refine ⟨rfl, rfl, fun e disp hobj => ?_⟩
  rcases DrmVideo.objs_of_modify hobj with ⟨he, old, hold, rfl⟩ | hsame
  · exact ⟨old, he ▸ hold, hf old⟩
  · exact ⟨disp, hsame, rfl, rfl⟩

theorem displayRef (video : DrmVideo β) (d : ℕ) : Keeps video (video.displayRef d) := by
  apply modify
  intro disp
  split_ifs
  · exact ⟨rfl, rfl⟩
  · exact ⟨rfl, rfl⟩

theorem displayUnref (video : DrmVideo β) (d : ℕ) : Keeps video (video.displayUnref d) := by
  unfold DrmVideo.displayUnref
  cases video.objs d with
  | none => exact refl video
  | some disp =>
    dsimp only
    split_ifs
    · exact refl video
    · refine ⟨rfl, rfl, fun e other hobj => ?_⟩
      dsimp only at hobj
      by_cases he : e = d
      · simp [he] at hobj
      · rw [Function.update_of_ne he] at hobj
        exact ⟨other, hobj, rfl, rfl⟩
    · exact modify video d fun _ => ⟨rfl, rfl⟩

theorem displayEvent (video : DrmVideo β) (crtc : ℕ) : Keeps video (video.displayEvent crtc) := by
  unfold DrmVideo.displayEvent
  cases video.pending.find? (·.1 == crtc) with
  | none => exact refl video
  | some owed =>
    have herase : Keeps video { video with pending := video.pending.erase owed } :=
      ⟨rfl, rfl, fun _ disp hobj => ⟨disp, hobj, rfl, rfl⟩⟩
    dsimp only
    split
    · exact herase
    · refine (herase.trans (modify _ _ ?_)).trans (displayUnref _ _)
      intro disp
      split_ifs
      · exact ⟨rfl, rfl⟩
      · exact ⟨rfl, rfl⟩

theorem foldl {ι : Type*} {f : DrmVideo β → ι → DrmVideo β}
    (hf : ∀ video i, Keeps video (f video i)) (is : List ι) (video : DrmVideo β) :
    Keeps video (is.foldl f video) := by
  induction is generalizing video with
  | nil => exact refl video
  | cons i is ih => exact (hf video i).trans (ih (f video i))

theorem drmDisplayWaitPflip (d : ℕ) (batches : List (List ℕ)) (video : DrmVideo β) :
    Keeps video (video.drmDisplayWaitPflip d batches) := by
  induction batches generalizing video with
  | nil => exact refl video
  | cons batch batches ih =>
    unfold DrmVideo.drmDisplayWaitPflip
    split_ifs
    · exact (foldl displayEvent batch video).trans (ih _)
    · exact refl video

theorem flip (ds : List ℕ) (video : DrmVideo β) : Keeps video (video.flip ds) :=
  ⟨rfl, rfl, fun _ disp hobj => ⟨disp, hobj, rfl, rfl⟩⟩

theorem release (video : DrmVideo β) (d : ℕ) : Keeps video (video.release d) := by
  unfold DrmVideo.release
  split_ifs
  · exact refl video
  · have hunref := displayUnref video d
    exact ⟨hunref.displays, hunref.commits, hunref.objs⟩

theorem acquire (video : DrmVideo β) (d : ℕ) : Keeps video (video.acquire d) := by
  unfold DrmVideo.acquire
  split_ifs
  · have href := displayRef video d
    exact ⟨href.displays, href.commits, href.objs⟩
  · exact refl video

theorem releases (d n : ℕ) (video : DrmVideo β) : Keeps video ((DrmVideo.release d)^[n] video) := by
  induction n generalizing video with
  | zero => exact refl video
  | succ n ih => exact (release video d).trans (ih (video.release d))

end Keeps

/-- The second buffer is made whenever the first one is. -/
def Drm2dAnswers.SecondMade (ans : Drm2dAnswers) : Prop :=
  ans.rb0.made = true → ans.rb1.made = true

/-- The blob of a display is that of its current mode, and so are both buffers if they are
there. Under `stay`, the current mode is the default mode. -/
structure Head.Fits (stay : Prop) (head : Head Drm2dDisplay) : Prop where
  blob : head.modeBlob = head.current
  previous : ∀ slot, head.previousMode = some slot →
    ({ head with currentMode := slot } : Head Drm2dDisplay).current = head.current
  buffers : head.data.rb0 = none ∧ head.data.rb1 = none ∨
    head.data.rb0 = some head.current.size ∧ head.data.rb1 = some head.current.size ∧
      (head.width, head.height) = head.current.size
  stay : stay → head.current = head.defaultMode

namespace Head.Fits

variable {stay : Prop} {head : Head Drm2dDisplay}

/-- What a commit says about a display that has its buffers. -/
theorem agrees (h : head.Fits stay) (halloc : head.data.rb0.isSome) {legacy props : Bool}
    {placed : Placed}
    (hplaced : (drmPrepareCommit legacy props head.data.back head).2 = some placed) :
    placed.Agrees := by
  rcases h.buffers with ⟨hnone, -⟩ | ⟨hfirst, hsecond, hsize⟩
  · rw [hnone] at halloc
    cases halloc
  · have hback : head.data.back = some head.current.size := by
      unfold Drm2dDisplay.back
      split_ifs
      · exact hfirst
      · exact hsecond
    unfold drmPrepareCommit at hplaced
    split_ifs at hplaced
    cases hplaced
    exact ⟨h.blob, hback, hsize⟩

/-- Both buffers are made in the size of the current mode, or none. -/
theorem displayAllocfb (h : head.Fits stay) (hnone : head.data.rb0 = none) {ans : Drm2dAnswers}
    (hans : ans.SecondMade) :
    (Video.displayAllocfb ans head).2.Fits stay ∧
      ((Video.displayAllocfb ans head).1 < 0 ∨ (Video.displayAllocfb ans head).1 = 0 ∧
        (Video.displayAllocfb ans head).2.data.rb0.isSome) := by
  have hnone' : head.data.rb1 = none := by
    rcases h.buffers with ⟨-, hsecond⟩ | ⟨hfirst, -⟩
    · exact hsecond
    · rw [hnone] at hfirst
      cases hfirst
  have hcurrent : ({ head with width := head.current.hdisplay, height := head.current.vdisplay } :
    Head Drm2dDisplay).current = head.current := rfl
  cases hmade : ans.rb0.made with
  | false =>
    obtain ⟨hneg, hgone⟩ := initRb_of_not_made hmade head.current.size
    simp only [Video.displayAllocfb, hcurrent, hnone, hnone', hgone]
    rw [if_pos (by omega)]
    exact ⟨⟨h.blob, h.previous, Or.inl ⟨rfl, rfl⟩, h.stay⟩, Or.inl hneg⟩
  | true =>
    simp only [Video.displayAllocfb, hcurrent, initRb_of_made hmade, initRb_of_made (hans hmade)]
    exact ⟨⟨h.blob, h.previous, Or.inr ⟨rfl, rfl, rfl⟩, h.stay⟩, Or.inr ⟨rfl, rfl⟩⟩

/-- Preparing a display makes both buffers in the size of the current mode, or none, and
does nothing to a display that has them. -/
theorem displayPrepareModeset (h : head.Fits stay) {ans : Drm2dAnswers} (hans : ans.SecondMade)
    (legacy : Bool) :
    (Video.displayPrepareModeset legacy ans head).2.1.Fits stay ∧
      (head.data.rb0.isSome → (Video.displayPrepareModeset legacy ans head).2.1 = head) ∧
      (0 ≤ (Video.displayPrepareModeset legacy ans head).1 →
        (Video.displayPrepareModeset legacy ans head).2.1.data.rb0.isSome ∧
        ∀ placed, (Video.displayPrepareModeset legacy ans head).2.2 = some placed →
          placed.Agrees) := by
  unfold Video.displayPrepareModeset
  cases hfirst : head.data.rb0 with
  | some size =>
    refine ⟨h, fun _ => rfl, fun _ => ⟨?_, fun placed hplaced => ?_⟩⟩
    · change head.data.rb0.isSome = true
      rw [hfirst]
      rfl
    · exact h.agrees (by rw [hfirst]; rfl) hplaced
  | none =>
    obtain ⟨hfits, hresult⟩ := h.displayAllocfb hfirst hans
    rw [Option.isNone_none, if_pos rfl]
    revert hfits hresult
    generalize Video.displayAllocfb ans head = out
    obtain ⟨ret, made⟩ := out
    intro hfits hresult
    dsimp only at hfits hresult ⊢
    rcases hresult with hneg | ⟨rfl, hsome⟩
    · rw [if_pos (by omega)]
      refine ⟨hfits, fun hsome => ?_, fun hret => ?_⟩
      · cases hsome
      · dsimp only at hret
        omega
    · rw [if_neg (by simp)]
      refine ⟨hfits, fun hsome => ?_, fun _ => ⟨hsome, fun placed hplaced => ?_⟩⟩
      · cases hsome
      · exact hfits.agrees hsome hplaced

theorem displayDoneModeset (h : head.Fits stay) (online : Bool) (status : ℤ) :
    (Video.displayDoneModeset online status head).Fits stay := by
  unfold Video.displayDoneModeset
  split_ifs
  · exact ⟨h.blob, h.previous, Or.inl ⟨rfl, rfl⟩, h.stay⟩
  · exact h
  · exact ⟨h.blob, h.previous, h.buffers, h.stay⟩

end Head.Fits

/-- A display fits if its head does, and has its buffers as soon as it is online. -/
structure DrmDisplay.Fits (stay : Prop) (disp : DrmDisplay Drm2dDisplay) : Prop where
  head : disp.head.Fits stay
  online : disp.online = true → disp.head.data.rb0.isSome

/-- A display that is online keeps its buffers when the modeset is done. -/
theorem DrmDisplay.Fits.displayDoneModeset {stay : Prop} {disp : DrmDisplay Drm2dDisplay}
    (h : disp.Fits stay) (status : ℤ) :
    ({ disp with head := Video.displayDoneModeset disp.online status disp.head } :
      DrmDisplay Drm2dDisplay).Fits stay := by
  refine ⟨h.head.displayDoneModeset disp.online status, fun honline => ?_⟩
  have halloc := h.online honline
  change (Video.displayDoneModeset disp.online status disp.head).data.rb0.isSome = true
  unfold Video.displayDoneModeset
  split_ifs with hstatus hoffline
  · simp [show disp.online = true from honline] at hoffline
  · exact halloc
  · exact halloc

/-- All displays of a device fit, those in the list stay at their default mode under
`stay`, and all commits have been of one mode. -/
structure DrmVideo.Fits (list : List ℕ) (stay : Prop) (video : DrmVideo Drm2dDisplay) :
    Prop where
  displays : video.displays = list
  objs : ∀ d disp, video.objs d = some disp → disp.Fits (stay ∧ d ∈ list)
  commits : ModesAgree video

/-- The display has its buffers, if it is there. -/
def DrmVideo.Ready (d : ℕ) (video : DrmVideo Drm2dDisplay) : Prop :=
  ∀ disp, video.objs d = some disp → disp.head.data.rb0.isSome

namespace DrmVideo

variable {list : List ℕ} {stay : Prop} {video next : DrmVideo Drm2dDisplay}

theorem Fits.keeps (h : video.Fits list stay) (hkeeps : Keeps video next) :
    next.Fits list stay := by
  refine ⟨hkeeps.displays.trans h.displays, fun d disp hobj => ?_, ?_⟩
  · obtain ⟨old, hold, hhead, honline⟩ := hkeeps.objs d disp hobj
    have hfits := h.objs d old hold
    exact ⟨hhead ▸ hfits.head, fun hon => hhead ▸ hfits.online (honline ▸ hon)⟩
  · intro req hreq
    exact h.commits req (hkeeps.commits ▸ hreq)

theorem Ready.keeps {d : ℕ} (h : video.Ready d) (hkeeps : Keeps video next) : next.Ready d := by
  intro disp hobj
  obtain ⟨old, hold, hhead, -⟩ := hkeeps.objs d disp hobj
  exact hhead ▸ h old hold

/-- A change of one display. -/
theorem Fits.modify (h : video.Fits list stay) (d : ℕ)
    {f : DrmDisplay Drm2dDisplay → DrmDisplay Drm2dDisplay}
    (hf : ∀ disp, video.objs d = some disp → (f disp).Fits (stay ∧ d ∈ list)) :
    (video.modify d f).Fits list stay := by
  refine ⟨h.displays, fun e disp hobj => ?_, h.commits⟩
  rcases objs_of_modify hobj with ⟨rfl, old, hold, rfl⟩ | hsame
  · exact hf old hold
  · exact h.objs e disp hsame

theorem Ready.modify {e : ℕ} (h : video.Ready e) (d : ℕ)
    {f : DrmDisplay Drm2dDisplay → DrmDisplay Drm2dDisplay}
    (hf : ∀ disp, video.objs d = some disp → disp.head.data.rb0.isSome →
      (f disp).head.data.rb0.isSome) : (video.modify d f).Ready e := by
  intro disp hobj
  rcases objs_of_modify hobj with ⟨rfl, old, hold, rfl⟩ | hsame
  · exact hf old hold (h old hold)
  · exact h disp hsame

theorem ready_modifyHead {d : ℕ} {disp : DrmDisplay Drm2dDisplay}
    (hobj : video.objs d = some disp) {head : Head Drm2dDisplay}
    (halloc : head.data.rb0.isSome) : (video.modifyHead d fun _ => head).Ready d := by
  intro next hnext
  rw [modifyHead, objs_modify_self, hobj] at hnext
  cases hnext
  exact halloc

/-- A prepared display fits; when it was ready, nothing has changed. -/
theorem Fits.prepare (h : video.Fits list stay) {d : ℕ} {disp : DrmDisplay Drm2dDisplay}
    (hobj : video.objs d = some disp) {ans : Drm2dAnswers} (hans : ans.SecondMade)
    (legacy : Bool) :
    (video.modifyHead d fun _ => (drm2dOps.prepareModeset legacy ans disp.head).2.1).Fits
      list stay := by
  obtain ⟨hfits, hsame, -⟩ := (h.objs d disp hobj).head.displayPrepareModeset hans legacy
  apply h.modify
  intro old hold
  obtain rfl : disp = old := Option.some_inj.mp (hobj.symm.trans hold)
  refine ⟨hfits, fun honline => ?_⟩
  have halloc := (h.objs d disp hobj).online honline
  change (displayPrepareModeset legacy ans disp.head).2.1.data.rb0.isSome = true
  rwa [hsame halloc]

theorem Ready.prepare (h : video.Fits list stay) {e : ℕ} (hready : video.Ready e) {d : ℕ}
    {disp : DrmDisplay Drm2dDisplay} (hobj : video.objs d = some disp) {ans : Drm2dAnswers}
    (hans : ans.SecondMade) (legacy : Bool) :
    (video.modifyHead d fun _ => (drm2dOps.prepareModeset legacy ans disp.head).2.1).Ready e := by
  obtain ⟨-, hsame, -⟩ := (h.objs d disp hobj).head.displayPrepareModeset hans legacy
  apply hready.modify
  intro old hold halloc
  obtain rfl : disp = old := Option.some_inj.mp (hobj.symm.trans hold)
  change (displayPrepareModeset legacy ans disp.head).2.1.data.rb0.isSome = true
  rwa [hsame halloc]

/-- Preparing all displays keeps those ready that are, and when nothing fails all are
ready and the request is of one mode for each. -/
theorem Fits.prepareAll (ans : ModesetAnswers Drm2dAnswers) {ds : List ℕ}
    (h : video.Fits list stay) (hans : ∀ d ∈ ds, (ans.prep d).SecondMade) :
    (video.prepareAll drm2dOps ans ds).2.2.2.Fits list stay ∧
      (∀ e, video.Ready e → (video.prepareAll drm2dOps ans ds).2.2.2.Ready e) ∧
      (0 ≤ (video.prepareAll drm2dOps ans ds).1 →
        (∀ d ∈ ds, (video.prepareAll drm2dOps ans ds).2.2.2.Ready d) ∧
        ∀ placed ∈ (video.prepareAll drm2dOps ans ds).2.2.1, placed.Agrees) := by
  induction ds generalizing video with
  | nil =>
    refine ⟨h, fun _ he => he, fun _ => ⟨fun d hd => ?_, fun placed hplaced => ?_⟩⟩
    · cases hd
    · cases hplaced
  | cons d ds ih =>
    have hwait := Keeps.drmDisplayWaitPflip d (ans.waits d) video
    have hrest : ∀ e ∈ ds, (ans.prep e).SecondMade := fun e he => hans e (List.mem_cons_of_mem d he)
    have hfits := h.keeps hwait
    cases hobj : (video.drmDisplayWaitPflip d (ans.waits d)).objs d with
    | none =>
      rw [prepareAll_none ds hobj]
      obtain ⟨hnext, hkept, hall⟩ := ih hfits hrest
      refine ⟨hnext, fun e he => hkept e (he.keeps hwait), fun hret => ?_⟩
      obtain ⟨hready, hagree⟩ := hall hret
      refine ⟨fun e he => ?_, hagree⟩
      rcases List.mem_cons.mp he with rfl | he
      · apply hkept
        intro disp hdisp
        rw [hobj] at hdisp
        cases hdisp
      · exact hready e he
    | some disp =>
      have hsecond := hans d List.mem_cons_self
      obtain ⟨-, -, hdone⟩ := (hfits.objs d disp hobj).head.displayPrepareModeset hsecond
        (video.drmDisplayWaitPflip d (ans.waits d)).legacy
      have hprepared := hfits.prepare hobj hsecond
        (video.drmDisplayWaitPflip d (ans.waits d)).legacy
      have hstill := fun e (he : Ready e _) => he.prepare hfits hobj hsecond
        (video.drmDisplayWaitPflip d (ans.waits d)).legacy
      rcases hprep : drm2dOps.prepareModeset (video.drmDisplayWaitPflip d (ans.waits d)).legacy
        (ans.prep d) disp.head with ⟨ret, head, placed⟩
      rw [prepareAll_some ds rfl hobj hprep]
      rw [show displayPrepareModeset _ _ _ = (ret, head, placed) from hprep] at hdone
      rw [hprep] at hprepared hstill
      by_cases hfail : ret < 0
      · rw [if_pos hfail]
        refine ⟨hprepared, fun e he => hstill e (he.keeps hwait), fun hret => ?_⟩
        dsimp only at hret
        omega
      · rw [if_neg hfail]
        obtain ⟨halloc, hagrees⟩ := hdone (by omega)
        obtain ⟨hnext, hkept, hall⟩ := ih hprepared hrest
        refine ⟨hnext, fun e he => hkept e (hstill e (he.keeps hwait)), fun hret => ?_⟩
        obtain ⟨hready, hagree⟩ := hall hret
        refine ⟨fun e he => ?_, fun other hother => ?_⟩
        · rcases List.mem_cons.mp he with rfl | he
          · exact hkept e (ready_modifyHead hobj halloc)
          · exact hready e he
        · rcases List.mem_append.mp hother with hown | hrest
          · exact hagrees other (by simpa using hown)
          · exact hagree other hrest

theorem Ready.displayDoneModeset {e : ℕ} (h : video.Ready e) (d : ℕ) :
    (video.modify d fun disp =>
      { disp with head := drm2dOps.doneModeset disp.online 0 disp.head }).Ready e :=
  h.modify d fun _ _ halloc => halloc

/-- A display is done with, and goes online only when it is ready. -/
theorem Fits.displayDoneModeset (h : video.Fits list stay) (d : ℕ) (ret : ℤ) :
    (video.modify d fun disp =>
      { disp with head := drm2dOps.doneModeset disp.online ret disp.head }).Fits list stay :=
  h.modify d fun disp hobj => (h.objs d disp hobj).displayDoneModeset ret

theorem Fits.online (h : video.Fits list stay) {d : ℕ} (hready : video.Ready d)
    {f : DrmDisplay Drm2dDisplay → DrmDisplay Drm2dDisplay}
    (hf : ∀ disp, (f disp).head = disp.head) :
    (video.modify d f).Fits list stay := by
  apply h.modify
  intro disp hobj
  exact ⟨hf disp ▸ (h.objs d disp hobj).head, fun _ => hf disp ▸ hready disp hobj⟩

theorem Fits.finishDisplay (h : video.Fits list stay) (refsTaken : Bool) (ret : ℤ) (d : ℕ)
    (hready : ret = 0 → video.Ready d) :
    (DrmVideo.finishDisplay drm2dOps refsTaken ret video d).Fits list stay := by
  have hdone := h.displayDoneModeset d ret
  unfold DrmVideo.finishDisplay
  dsimp only
  by_cases hret : ret = 0
  · rw [if_neg (not_not.mpr hret)]
    have hstill : Ready d _ := (hready hret).displayDoneModeset d
    rw [← hret] at hstill
    exact hdone.online hstill fun _ => rfl
  · rw [if_pos hret]
    split_ifs
    · exact hdone.keeps (Keeps.displayUnref _ d)
    · exact hdone

theorem Ready.finishDisplay {e : ℕ} (h : video.Ready e) (refsTaken : Bool) (d : ℕ) :
    (DrmVideo.finishDisplay drm2dOps refsTaken 0 video d).Ready e := by
  unfold DrmVideo.finishDisplay
  exact (h.displayDoneModeset d).modify d fun _ _ halloc => halloc

theorem Fits.finishDisplays (refsTaken : Bool) (ret : ℤ) {ds : List ℕ}
    (h : video.Fits list stay) (hready : ret = 0 → ∀ d ∈ ds, video.Ready d) :
    (ds.foldl (DrmVideo.finishDisplay drm2dOps refsTaken ret) video).Fits list stay := by
  induction ds generalizing video with
  | nil => exact h
  | cons d ds ih =>
    apply ih
    · exact h.finishDisplay refsTaken ret d fun hret => hready hret d List.mem_cons_self
    · rintro rfl e he
      exact (hready rfl e (List.mem_cons_of_mem d he)).finishDisplay refsTaken d

theorem Fits.finishModeset (h : video.Fits list stay) (refsTaken : Bool) (ret : ℤ) (n : ℕ)
    (hready : ret = 0 → ∀ d ∈ list, video.Ready d) :
    (video.finishModeset drm2dOps refsTaken ret n).Fits list stay := by
  unfold DrmVideo.finishModeset
  apply h.finishDisplays
  intro hret d hd
  exact hready hret d (h.displays ▸ List.mem_of_mem_take hd)

/-- A commit is sent whose request agrees. -/
theorem Fits.send (h : video.Fits list stay) {req : List Placed}
    (hreq : ∀ placed ∈ req, placed.Agrees) : (video.send req).Fits list stay := by
  refine ⟨h.displays, h.objs, fun other hother => ?_⟩
  rcases List.mem_append.mp hother with hold | hnew
  · exact h.commits other hold
  · rw [List.mem_singleton.mp hnew]
    exact hreq

theorem Fits.performModeset (ans : ModesetAnswers Drm2dAnswers) (h : video.Fits list stay)
    (hans : ∀ d ∈ list, (ans.prep d).SecondMade) :
    (video.performModeset drm2dOps ans).2.Fits list stay := by
  unfold DrmVideo.performModeset
  cases ans.alloc with
  | false => exact h
  | true =>
    have hans' : ∀ d ∈ video.displays, (ans.prep d).SecondMade := h.displays ▸ hans
    obtain ⟨hprepared, -, hall⟩ := h.prepareAll ans hans'
    revert hprepared hall
    simp only [Bool.not_true, Bool.false_eq_true, if_false]
    generalize DrmVideo.prepareAll drm2dOps ans video.displays video = out
    obtain ⟨ret, n, req, prepared⟩ := out
    intro hprepared hall
    dsimp only at hprepared hall ⊢
    rw [h.displays] at hall
    by_cases hfail : ret < 0
    · rw [if_pos hfail]
      exact hprepared.finishModeset false ret n (by omega)
    rw [if_neg hfail]
    obtain ⟨hready, hagree⟩ := hall (by omega)
    have hsent := hprepared.send hagree
    have hready : ∀ d ∈ list, Ready d (prepared.send req) := hready
    by_cases htest : ans.test < 0
    · rw [if_pos htest]
      exact hsent.finishModeset false eagain n fun heq => absurd heq (by decide)
    rw [if_neg htest]
    have hrefs := Keeps.foldl (fun video d => Keeps.displayRef video d)
      (prepared.send req).displays (prepared.send req)
    have hheld := (hsent.keeps hrefs).send hagree
    have hstill : ∀ d ∈ list, Ready d (DrmVideo.send req ((prepared.send req).displays.foldl
        (fun video d => video.displayRef d) (prepared.send req))) :=
      fun d hd => by
        have hkept := (hready d hd).keeps hrefs
        exact hkept
    revert hheld hstill
    generalize DrmVideo.send req ((prepared.send req).displays.foldl
      (fun video d => video.displayRef d) (prepared.send req)) = held
    intro hheld hstill
    by_cases hcommit : ans.commit = 0
    · rw [if_pos hcommit]
      have hflip := Keeps.flip held.displays held
      exact (hheld.keeps hflip).finishModeset true _ n fun _ d hd => (hstill d hd).keeps hflip
    · rw [if_neg hcommit]
      exact hheld.finishModeset true _ n fun hret => absurd hret hcommit

theorem Fits.legacyDisplay (ans : ModesetAnswers Drm2dAnswers) (h : video.Fits list stay) (d : ℕ)
    (hans : (ans.prep d).SecondMade) :
    (DrmVideo.legacyDisplay drm2dOps ans video d).Fits list stay := by
  have hfits := h.keeps (Keeps.drmDisplayWaitPflip d (ans.waits d) video)
  unfold DrmVideo.legacyDisplay
  revert hfits
  generalize video.drmDisplayWaitPflip d (ans.waits d) = waited
  intro hfits
  cases hobj : waited.objs d with
  | none =>
    simp only [hobj]
    exact hfits
  | some disp =>
    obtain ⟨-, -, hmade⟩ := (hfits.objs d disp hobj).head.displayPrepareModeset hans waited.legacy
    have hprepared := hfits.prepare hobj hans waited.legacy
    rcases hprep : drm2dOps.prepareModeset waited.legacy (ans.prep d) disp.head with
      ⟨ret, head, placed⟩
    rw [show displayPrepareModeset _ _ _ = (ret, head, placed) from hprep] at hmade
    rw [hprep] at hprepared
    simp only [hobj, hprep]
    by_cases hfail : ret < 0
    · rw [if_pos hfail]
      exact hprepared
    rw [if_neg hfail]
    have hdone := hprepared.displayDoneModeset d (ans.setCrtc d)
    by_cases hset : ans.setCrtc d = 0
    · rw [if_neg (not_not.mpr hset)]
      have hstill := (ready_modifyHead hobj (hmade (by omega)).1).displayDoneModeset d
      rw [← hset] at hstill
      exact hdone.online hstill fun _ => rfl
    · rw [if_pos hset]
      exact hdone

theorem Fits.legacyModeset (ans : ModesetAnswers Drm2dAnswers) (h : video.Fits list stay)
    (hans : ∀ d ∈ list, (ans.prep d).SecondMade) :
    (video.legacyModeset drm2dOps ans).2.Fits list stay := by
  have hrounds : ∀ ds : List ℕ, (∀ d ∈ ds, (ans.prep d).SecondMade) →
      ∀ video : DrmVideo Drm2dDisplay, video.Fits list stay →
        (ds.foldl (DrmVideo.legacyDisplay drm2dOps ans) video).Fits list stay := by
    intro ds
    induction ds with
    | nil => exact fun _ _ h => h
    | cons d ds ih =>
      intro hds video h
      apply ih
      · exact fun e he => hds e (List.mem_cons_of_mem d he)
      · exact h.legacyDisplay ans d (hds d List.mem_cons_self)
  exact hrounds _ (h.displays ▸ hans) video h

theorem Fits.modeset (ans : ModesetAnswers Drm2dAnswers) (h : video.Fits list stay)
    (hans : ∀ d ∈ list, (ans.prep d).SecondMade) :
    (video.modeset drm2dOps ans).2.Fits list stay := by
  unfold DrmVideo.modeset
  split_ifs
  · exact h.legacyModeset ans hans
  · exact h.performModeset ans hans

theorem Fits.modifyHeads (ds : List ℕ) {f : Head Drm2dDisplay → Head Drm2dDisplay}
    (h : video.Fits list stay)
    (hf : ∀ d ∈ ds, ∀ head : Head Drm2dDisplay, head.Fits (stay ∧ d ∈ list) →
      (f head).Fits (stay ∧ d ∈ list) ∧ (f head).data = head.data) :
    (ds.foldl (fun video d => video.modifyHead d f) video).Fits list stay := by
  induction ds generalizing video with
  | nil => exact h
  | cons d ds ih =>
    apply ih
    · apply h.modify
      intro disp hobj
      have hdisp := h.objs d disp hobj
      obtain ⟨hfits, hdata⟩ := hf d List.mem_cons_self disp.head hdisp.head
      refine ⟨hfits, fun honline => ?_⟩
      change (f disp.head).data.rb0.isSome = true
      rw [hdata]
      exact hdisp.online honline
    · exact fun e he => hf e (List.mem_cons_of_mem d he)

end DrmVideo

/-- A display that stays at its default mode is not changed by the second attempt. -/
theorem Head.Fits.useDefault {stay : Prop} {head : Head Drm2dDisplay} (h : head.Fits stay)
    (hstay : stay) : (DrmVideo.useDefault head).Fits stay := by
  have hsame : (DrmVideo.useDefault head).current = head.current := (h.stay hstay).symm
  refine ⟨?_, fun slot hslot => ?_, ?_, fun _ => rfl⟩
  · rw [hsame]
    exact h.blob
  · rw [hsame]
    obtain rfl : head.currentMode = slot := Option.some_inj.mp hslot
    rfl
  · rw [hsame]
    exact h.buffers

theorem Head.Fits.settleMode {stay : Prop} {head : Head Drm2dDisplay} (h : head.Fits stay)
    (ret : ℤ) : (DrmVideo.settleMode ret head).Fits stay := by
  have hsame : (DrmVideo.settleMode ret head).current = head.current := by
    cases hprev : head.previousMode with
    | none => simp [DrmVideo.settleMode, hprev, Head.current]
    | some slot =>
      have hslot := h.previous slot hprev
      unfold DrmVideo.settleMode
      by_cases hret : ret = 0
      · simp [hret, Head.current]
      · simpa [hret, hprev, Head.current] using hslot
  refine ⟨?_, fun slot hslot => ?_, ?_, fun hstay => ?_⟩
  · rw [hsame]
    exact h.blob
  · cases hslot
  · rw [hsame]
    exact h.buffers
  · rw [hsame]
    exact h.stay hstay

theorem initRb_eagain {ans : RbAnswers} {size : ℕ × ℕ} {rb : Option (ℕ × ℕ)}
    (h : (initRb ans size rb).1 = eagain) : ans.map = 11 := by
  have hefault : efault ≠ eagain := by decide
  have hzero : (0 : ℤ) ≠ eagain := by decide
  unfold initRb at h
  split_ifs at h
  · exact absurd h hefault
  · exact absurd h hefault
  · simp only [eagain] at h
    omega
  · exact absurd h hefault
  · exact absurd h hzero

/-- The result of making the buffers is that of the first one, or success. -/
theorem displayAllocfb_fst (ans : Drm2dAnswers) (head : Head Drm2dDisplay) :
    (displayAllocfb ans head).1 = (initRb ans.rb0 head.current.size head.data.rb0).1 ∨
      (displayAllocfb ans head).1 = 0 := by
  have hcurrent : ({ head with width := head.current.hdisplay, height := head.current.vdisplay } :
    Head Drm2dDisplay).current = head.current := rfl
  simp only [displayAllocfb, hcurrent]
  split_ifs
  · exact Or.inl rfl
  · exact Or.inr rfl
  · exact Or.inr rfl

/-- `-EAGAIN` out of the preparation is that of mapping the first buffer. -/
theorem displayPrepareModeset_eagain (legacy : Bool) {ans : Drm2dAnswers}
    (head : Head Drm2dDisplay) (h : (displayPrepareModeset legacy ans head).1 = eagain) :
    ans.rb0.map = 11 := by
  have hplace : ∀ head : Head Drm2dDisplay,
      (drmPrepareCommit legacy ans.props head.data.back head).1 ≠ eagain := by
    intro head
    have hzero : (0 : ℤ) ≠ eagain := by decide
    have hprops : (-1 : ℤ) ≠ eagain := by decide
    unfold drmPrepareCommit
    split_ifs
    · exact hzero
    · exact hzero
    · exact hprops
  unfold displayPrepareModeset at h
  cases hfirst : head.data.rb0 with
  | some size =>
    rw [hfirst, Option.isNone_some, if_neg (by simp)] at h
    exact absurd h (hplace head)
  | none =>
    rw [hfirst, Option.isNone_none, if_pos rfl] at h
    by_cases hret : (displayAllocfb ans head).1 ≠ 0
    · simp only [if_pos hret] at h
      rcases displayAllocfb_fst ans head with hinit | hzero
      · exact initRb_eagain (hinit.symm.trans h)
      · exact absurd hzero hret
    · simp only [if_neg hret] at h
      exact absurd h (hplace _)

/-- The kernel refuses the test commit, or something else in an attempt ends with
`-EAGAIN`. -/
def Refused (list : List ℕ) (ans : ModesetAnswers Drm2dAnswers) : Prop :=
  ans.test < 0 ∨ ans.commit = eagain ∨ ∃ d ∈ list, (ans.prep d).rb0.map = 11

/-- Displays are not pointed at another mode than their blob has: no first attempt is
refused while the current mode of a display is not its default mode. And no display loses
its buffers because the second one cannot be made. -/
def ModesMeet (video : DrmVideo Drm2dDisplay) : DrmEvent Drm2dAnswers → Prop
  | .modeset ans retry =>
    (Refused video.displays ans → ∀ d ∈ video.displays, ∀ disp, video.objs d = some disp →
      disp.head.current = disp.head.defaultMode) ∧
    ∀ d ∈ video.displays, (ans.prep d).SecondMade ∧ (retry.prep d).SecondMade
  | _ => True

namespace DrmVideo

variable {list : List ℕ} {stay : Prop} {video : DrmVideo Drm2dDisplay}

theorem Fits.restay (h : video.Fits list stay) {other : Prop}
    (hother : other → ∀ d ∈ list, ∀ disp, video.objs d = some disp →
      disp.head.current = disp.head.defaultMode) : video.Fits list other := by
  refine ⟨h.displays, fun d disp hobj => ?_, h.commits⟩
  obtain ⟨hhead, honline⟩ := h.objs d disp hobj
  refine ⟨⟨hhead.blob, hhead.previous, hhead.buffers, fun hstay => ?_⟩, honline⟩
  exact hother hstay.1 d hstay.2 disp hobj

theorem prepareAll_eagain {ans : ModesetAnswers Drm2dAnswers} {ds : List ℕ}
    (h : (video.prepareAll drm2dOps ans ds).1 = eagain) : ∃ d ∈ ds, (ans.prep d).rb0.map = 11 := by
  induction ds generalizing video with
  | nil => cases h
  | cons d ds ih =>
    cases hobj : (video.drmDisplayWaitPflip d (ans.waits d)).objs d with
    | none =>
      rw [prepareAll_none ds hobj] at h
      obtain ⟨e, he, hmap⟩ := ih h
      exact ⟨e, List.mem_cons_of_mem d he, hmap⟩
    | some disp =>
      rcases hprep : drm2dOps.prepareModeset (video.drmDisplayWaitPflip d (ans.waits d)).legacy
        (ans.prep d) disp.head with ⟨ret, head, placed⟩
      rw [prepareAll_some ds rfl hobj hprep] at h
      by_cases hfail : ret < 0
      · rw [if_pos hfail] at h
        exact ⟨d, List.mem_cons_self,
          displayPrepareModeset_eagain _ _ ((congrArg Prod.fst hprep).trans h)⟩
      · rw [if_neg hfail] at h
        obtain ⟨e, he, hmap⟩ := ih h
        exact ⟨e, List.mem_cons_of_mem d he, hmap⟩

/-- An attempt that ends with `-EAGAIN` is refused. -/
theorem modeset_eagain {ans : ModesetAnswers Drm2dAnswers}
    (h : (video.modeset drm2dOps ans).1 = eagain) : Refused video.displays ans := by
  unfold modeset at h
  split_ifs at h
  · cases h
  unfold performModeset at h
  cases halloc : ans.alloc with
  | false =>
    have henomem : enomem ≠ eagain := by decide
    rw [halloc, Bool.not_false, if_pos rfl] at h
    exact absurd h henomem
  | true =>
    have hprepare : (video.prepareAll drm2dOps ans video.displays).1 = eagain → _ :=
      prepareAll_eagain
    revert h hprepare
    simp only [halloc, Bool.not_true, Bool.false_eq_true, if_false]
    generalize DrmVideo.prepareAll drm2dOps ans video.displays video = out
    obtain ⟨ret, n, req, prepared⟩ := out
    intro h hprepare
    dsimp only at h hprepare
    by_cases hfail : ret < 0
    · rw [if_pos hfail] at h
      exact Or.inr (Or.inr (hprepare h))
    rw [if_neg hfail] at h
    by_cases htest : ans.test < 0
    · exact Or.inl htest
    · rw [if_neg htest] at h
      exact Or.inr (Or.inl h)

theorem Fits.tryModeset (ans retry : ModesetAnswers Drm2dAnswers) (h : video.Fits list False)
    (hmeets : ModesMeet video (.modeset ans retry)) :
    (video.tryModeset drm2dOps ans retry).2.Fits list False := by
  obtain ⟨hrefused, hsecond⟩ := hmeets
  rw [h.displays] at hrefused hsecond
  have hstay : video.Fits list (Refused list ans) := h.restay hrefused
  have hfirst := hstay.modeset ans fun d hd => (hsecond d hd).1
  have hagain : (video.modeset drm2dOps ans).1 = eagain → Refused list ans := fun heq =>
    h.displays ▸ modeset_eagain heq
  unfold DrmVideo.tryModeset
  revert hfirst hagain
  generalize video.modeset drm2dOps ans = out
  obtain ⟨ret, next⟩ := out
  intro hfirst hagain
  dsimp only at hfirst hagain ⊢
  by_cases hret : ret ≠ eagain
  · rw [if_pos hret]
    exact hfirst.restay False.elim
  rw [if_neg hret]
  by_cases hempty : next.displays.isEmpty = true
  · rw [if_pos hempty]
    exact hfirst.restay False.elim
  rw [if_neg hempty]
  have href := hagain (not_not.mp hret)
  have hdefault := hfirst.modifyHeads (f := useDefault) next.displays fun d hd head hhead =>
    ⟨hhead.useDefault ⟨href, hfirst.displays ▸ hd⟩, rfl⟩
  have hretry := hdefault.modeset retry fun d hd => (hsecond d hd).2
  exact (hretry.modifyHeads (f := settleMode _) _ fun d hd head hhead =>
    ⟨hhead.settleMode _, rfl⟩).restay False.elim

/-- A page flip shows the back buffer of a display that is online. -/
theorem Fits.drmDisplaySwap (h : video.Fits list stay) {d : ℕ} {disp : DrmDisplay Drm2dDisplay}
    (hobj : video.objs d = some disp) (honline : disp.online = true) (props : Bool) (commit : ℤ) :
    (video.drmDisplaySwap d disp.head.data.back props commit).2.Fits list stay := by
  have hdisp := h.objs d disp hobj
  unfold DrmVideo.drmDisplaySwap
  simp only [hobj]
  by_cases hdpms : disp.dpms ≠ .on
  · rw [if_pos hdpms]
    exact h
  rw [if_neg hdpms]
  by_cases hvsync : disp.vsync = true
  · rw [if_pos hvsync]
    exact h
  rw [if_neg hvsync]
  by_cases hret : (drmPrepareCommit video.legacy props disp.head.data.back disp.head).1 ≠ 0
  · rw [if_pos hret]
    exact h
  rw [if_neg hret]
  have hsent : (if video.legacy = true then video else video.send
      (drmPrepareCommit video.legacy props disp.head.data.back disp.head).2.toList).Fits
        list stay := by
    split_ifs
    · exact h
    · apply h.send
      intro placed hplaced
      exact hdisp.head.agrees (hdisp.online honline) (by simpa using hplaced)
  revert hsent
  generalize (if video.legacy = true then video else video.send
    (drmPrepareCommit video.legacy props disp.head.data.back disp.head).2.toList) = sent
  intro hsent
  by_cases hcommit : commit ≠ 0
  · rw [if_pos hcommit]
    exact hsent
  · rw [if_neg hcommit]
    have hflip := (Keeps.flip [d] sent).trans (Keeps.displayRef (sent.flip [d]) d)
    exact hsent.keeps (hflip.trans (Keeps.modify _ d fun _ => ⟨rfl, rfl⟩))

theorem Fits.displaySwap (h : video.Fits list stay) (d : ℕ) (ans : Drm2dAnswers) (props : Bool)
    (commit : ℤ) : (video.displaySwap drm2dOps d ans props commit).Fits list stay := by
  unfold DrmVideo.displaySwap
  cases hobj : video.objs d with
  | none => exact h
  | some disp =>
    dsimp only
    by_cases hunusable : (!disp.online || !video.awake) = true
    · rw [if_pos hunusable]
      exact h
    rw [if_neg hunusable]
    have honline : disp.online = true := by
      by_contra hoffline
      simp [hoffline] at hunusable
    have hswap := h.drmDisplaySwap hobj honline props commit
    change (if (video.drmDisplaySwap d disp.head.data.back props commit).1 ≠ 0 then _ else _ :
      DrmVideo Drm2dDisplay).Fits list stay
    split_ifs
    · exact hswap
    · apply hswap.modify
      intro other hother
      obtain ⟨hhead, hbuffers⟩ := hswap.objs d other hother
      exact ⟨⟨hhead.blob, hhead.previous, hhead.buffers, hhead.stay⟩, hbuffers⟩

/-- The blob of a new display is that of its current mode. -/
theorem Fits.bindDisplay (h : video.Fits video.displays False) (d : ℕ) (conn : Connector) :
    (video.bindDisplay Drm2dDisplay.new d conn).Fits
      (video.bindDisplay Drm2dDisplay.new d conn).displays False := by
  unfold DrmVideo.bindDisplay
  by_cases hfree : (video.objs d).isSome = true
  · rw [if_pos hfree]
    exact h
  rw [if_neg hfree]
  cases conn.crtcs.find? (!video.isCrtcInUse ·) with
  | none => exact h
  | some crtc =>
    dsimp only
    split_ifs
    · exact h
    · refine ⟨rfl, fun e disp hobj => ?_, h.commits⟩
      dsimp only at hobj
      by_cases he : e = d
      · rw [he, Function.update_self] at hobj
        cases hobj
        refine ⟨⟨rfl, fun slot hslot => ?_, Or.inl ⟨rfl, rfl⟩, fun hstay => hstay.1.elim⟩, ?_⟩
        · cases hslot
        · exact fun honline => absurd honline Bool.false_ne_true
      · rw [Function.update_of_ne he] at hobj
        have hdisp := h.objs e disp hobj
        exact ⟨⟨hdisp.head.blob, hdisp.head.previous, hdisp.head.buffers,
          fun hstay => hstay.1.elim⟩, hdisp.online⟩

theorem Fits.own (h : video.Fits list stay) : video.Fits video.displays stay := by
  rw [h.displays]
  exact h

theorem Fits.relist (h : video.Fits list False) (other : List ℕ) :
    ({ video with displays := other } : DrmVideo Drm2dDisplay).Fits other False := by
  refine ⟨rfl, fun d disp hobj => ?_, h.commits⟩
  obtain ⟨hhead, honline⟩ := h.objs d disp hobj
  exact ⟨⟨hhead.blob, hhead.previous, hhead.buffers, fun hstay => hstay.1.elim⟩, honline⟩

theorem Fits.displayUnbind (h : video.Fits video.displays False) (d : ℕ) :
    (video.displayUnbind d).Fits (video.displayUnbind d).displays False := by
  unfold DrmVideo.displayUnbind
  split_ifs
  · have hreleased := h.keeps (Keeps.releases d (video.users d) video)
    exact ((hreleased.relist _).keeps (Keeps.displayUnref _ d)).own
  · exact h

end DrmVideo

section Runs

theorem fits_new (legacy useOriginal : Bool) (desired : ℕ × ℕ) :
    (DrmVideo.new legacy useOriginal desired : DrmVideo Drm2dDisplay).Fits [] False := by
  refine ⟨rfl, fun d disp hobj => ?_, fun req hreq => ?_⟩
  · cases hobj
  · cases hreq

theorem fits_step (video : DrmVideo Drm2dDisplay) (event : DrmEvent Drm2dAnswers)
    (h : video.Fits video.displays False) (hmeets : ModesMeet video event) :
    (video.step drm2dOps Drm2dDisplay.new event).Fits
      (video.step drm2dOps Drm2dDisplay.new event).displays False := by
  cases event with
  | bind d conn => exact h.bindDisplay d conn
  | unbind d => exact h.displayUnbind d
  | modeset ans retry => exact (h.tryModeset ans retry hmeets).own
  | swap d ans props commit => exact (h.displaySwap d ans props commit).own
  | flipEvent crtc => exact (h.keeps (Keeps.displayEvent video crtc)).own
  | pflip d =>
    refine (h.keeps (Keeps.modify video d fun disp => ?_)).own
    split_ifs
    · exact ⟨rfl, rfl⟩
    · exact ⟨rfl, rfl⟩
  | setDpms d dpms ok =>
    refine (h.keeps (Keeps.modify video d fun disp => ?_)).own
    split_ifs
    · exact ⟨rfl, rfl⟩
    · exact ⟨rfl, rfl⟩
  | acquire d => exact (h.keeps (Keeps.acquire video d)).own
  | release d => exact (h.keeps (Keeps.release video d)).own
  | awake on => exact ⟨h.displays, h.objs, h.commits⟩

/-- In a run in which no first attempt is refused that does not use the default modes, and
no display loses its second buffer, every commit that is sent has the blob, the
framebuffer and the plane of the current mode. -/
theorem modesAgree_of_modesMeet (legacy useOriginal : Bool) (desired : ℕ × ℕ)
    (events : List (DrmEvent Drm2dAnswers))
    (hmeets : Runs.Along (DrmVideo.step drm2dOps Drm2dDisplay.new) ModesMeet
      (DrmVideo.new legacy useOriginal desired) events) :
    Runs.Always (DrmVideo.step drm2dOps Drm2dDisplay.new) ModesAgree
      (DrmVideo.new legacy useOriginal desired) events := by
  apply Runs.Along.always (J := fun video => video.Fits video.displays False)
  · exact fun video h => h.commits
  · exact fun video event h hevent => fits_step video event h hevent
  · exact fits_new legacy useOriginal desired
  · exact hmeets

end Runs

/-- An output that prefers a large mode and has the desired one too. -/
def largeConnector : Connector :=
  { crtcs := [5], ok := true, dpms := .on, crtcMode := none,
    modes := [⟨3840, 2160, 0, true⟩, ⟨1920, 1080, 1, false⟩] }

/-- The desired mode is set, and a page flipped. -/
def desiredThenSwap : List (DrmEvent Drm2dAnswers) :=
  [.bind 0 largeConnector, .modeset willingAnswers willingAnswers, .flipEvent 5, .pflip 0,
    .swap 0 roomyAnswers true 0]

theorem modesAgree_desiredThenSwap :
    Runs.Along (DrmVideo.step drm2dOps Drm2dDisplay.new) ModesMeet
      (DrmVideo.new false false (1920, 1080)) desiredThenSwap ∧
    Runs.Always (DrmVideo.step drm2dOps Drm2dDisplay.new) ModesAgree
      (DrmVideo.new false false (1920, 1080)) desiredThenSwap := by
  have hwilling : ∀ list : List ℕ, ¬ Refused list willingAnswers := by
    rintro list (htest | hcommit | ⟨d, -, hmap⟩)
    · exact absurd htest (by decide)
    · exact absurd hcommit (by decide)
    · cases hmap
  have hmeets : Runs.Along (DrmVideo.step drm2dOps Drm2dDisplay.new) ModesMeet
      (DrmVideo.new false false (1920, 1080)) desiredThenSwap :=
    ⟨trivial, ⟨fun href => absurd href (hwilling _), fun _ _ => ⟨fun _ => rfl, fun _ => rfl⟩⟩,
      trivial, trivial, trivial, trivial⟩
  exact ⟨hmeets, modesAgree_of_modesMeet _ _ _ _ hmeets⟩

/-- The kernel refuses the desired mode and accepts the second attempt. -/
def desiredRefused : List (DrmEvent Drm2dAnswers) :=
  [.bind 0 largeConnector, .modeset { willingAnswers with test := -22 } willingAnswers]

/-- The commit that sets the mode has the blob of the desired mode and a framebuffer of
the default mode, which is the current one. -/
theorem desiredRefused_not_modesAgree :
    (Runs.run (DrmVideo.step drm2dOps Drm2dDisplay.new) (DrmVideo.new false false (1920, 1080))
      desiredRefused).commits.getLast? =
        some [⟨⟨1920, 1080, 1, false⟩, some (3840, 2160), (3840, 2160), ⟨3840, 2160, 0, true⟩⟩] ∧
    ¬ Runs.Always (DrmVideo.step drm2dOps Drm2dDisplay.new) ModesAgree
      (DrmVideo.new false false (1920, 1080)) desiredRefused := by
  refine ⟨by decide +kernel, fun h => ?_⟩
  have hlast := h.last
  revert hlast
  unfold ModesAgree
  decide +kernel

end Faceplate.Video
