import Faceplate.Lib.Runs
import Faceplate.Video.HotplugRounds

/-!
# Runs with hotplugs

Whatever the kernel answers, the displays of a device have connectors and CRTCs of their
own, and the seat knows exactly those that are in use. A hotplug ends with the displays
of all connectors that the kernel reports, as far as CRTCs are free; one that fails is
made up for, since a device that is awake has its timer running until then.
-/

namespace Faceplate.Video

open Announcements

section Lists

variable {α : Type*} [DecidableEq α] {l : List α} {a : α}

theorem filter_perm_of_mem (h : a ∈ l) (p : α → Bool) :
    (l.filter p).Perm ((a :: l.erase a).filter p) :=
  (List.perm_cons_erase h).filter p

/-- One element more is let through. -/
theorem filter_perm_cons (hnodup : l.Nodup) (h : a ∈ l) {p q : α → Bool} (hp : p a = false)
    (hq : q a = true) (hother : ∀ b ∈ l, b ≠ a → q b = p b) :
    (l.filter q).Perm (a :: l.filter p) := by
  apply (filter_perm_of_mem h q).trans
  rw [List.filter_cons, if_pos hq]
  apply List.Perm.cons
  have hsame : (l.erase a).filter q = (l.erase a).filter p := by
    apply List.filter_congr
    intro b hb
    obtain ⟨hne, hmem⟩ := hnodup.mem_erase_iff.mp hb
    exact hother b hmem hne
  have hperm := filter_perm_of_mem h p
  rw [List.filter_cons, hp, if_neg Bool.false_ne_true] at hperm
  rw [hsame]
  exact hperm.symm

theorem filter_erase_perm (h : a ∈ l) {p : α → Bool} (hp : p a = true) :
    ((l.filter p).erase a).Perm ((l.erase a).filter p) := by
  have hperm := filter_perm_of_mem h p
  rw [List.filter_cons, if_pos hp] at hperm
  have herase := hperm.erase a
  rwa [List.erase_cons_head] at herase

theorem filter_perm_erase (h : a ∈ l) {p : α → Bool} (hp : p a = false) :
    (l.filter p).Perm ((l.erase a).filter p) := by
  have hperm := filter_perm_of_mem h p
  rwa [List.filter_cons, hp, if_neg Bool.false_ne_true] at hperm

end Lists

namespace DrmVideo

variable {β : Type*} {video : DrmVideo β}

theorem pending_displayUnref (video : DrmVideo β) (d : ℕ) :
    (video.displayUnref d).pending = video.pending :=
  congrArg Books.pending (books_displayUnref video d)

theorem pending_releases (d n : ℕ) (video : DrmVideo β) :
    ((release d)^[n] video).pending = video.pending := by
  induction n generalizing video with
  | zero => rfl
  | succ n ih =>
    rw [Function.iterate_succ_apply, ih, release]
    split_ifs
    · rfl
    · exact pending_displayUnref video d

theorem pending_displayUnbind (video : DrmVideo β) (d : ℕ) :
    (video.displayUnbind d).pending = video.pending := by
  unfold displayUnbind
  split_ifs
  · exact (pending_displayUnref _ d).trans (pending_releases d _ video)
  · rfl

end DrmVideo

namespace KmsVideo

variable {β α : Type*} {ops : DrmOps β α} {v w : KmsVideo β} {data : β}

/-- What is left when displays were let go: marks, flags and the other displays. -/
structure Lets (v w : KmsVideo β) : Prop where
  linked : w.Linked
  plugs : w.plugs = v.plugs
  flags : w.hotplug = v.hotplug ∧ w.master = v.master ∧ w.vtTimer = v.vtTimer
  stays : Stays { v.video with displays := w.video.displays } w.video
  pending : w.video.pending = v.video.pending

theorem Lets.trans {u : KmsVideo β} (h : Lets u v) (hnext : Lets v w) : Lets u w := by
  refine ⟨hnext.linked, hnext.plugs.trans h.plugs, ?_, ?_, hnext.pending.trans h.pending⟩
  · exact ⟨hnext.flags.1.trans h.flags.1, hnext.flags.2.1.trans h.flags.2.1,
      hnext.flags.2.2.trans h.flags.2.2⟩
  · exact (h.stays.relist _).trans hnext.stays

theorem displays_displayUnbind {d : ℕ} (hd : d ∈ v.video.displays) :
    (v.displayUnbind d).video.displays = v.video.displays.erase d :=
  (Stays.displayUnbind hd).displays

/-- The seat is told of a display that goes only if it knows it. -/
theorem tells_displayUnbind
    (h : Tells v.told (v.video.displays.filter fun d => (v.plugs d).inUse)) {d : ℕ}
    (hd : d ∈ v.video.displays) :
    Tells (v.displayUnbind d).told
      ((v.displayUnbind d).video.displays.filter fun e => ((v.displayUnbind d).plugs e).inUse) := by
  rw [displays_displayUnbind hd]
  change Tells (if (v.plugs d).inUse then v.told ++ [.removed d] else v.told)
    ((v.video.displays.erase d).filter fun e => (v.plugs e).inUse)
  cases huse : (v.plugs d).inUse with
  | true =>
    rw [if_pos rfl]
    apply (h.removed _).perm (filter_erase_perm hd huse)
    exact List.mem_filter.mpr ⟨hd, huse⟩
  | false =>
    rw [if_neg Bool.false_ne_true]
    exact h.perm (filter_perm_erase hd huse)

theorem Linked.displayUnbind (h : v.Linked) {d : ℕ} (hd : d ∈ v.video.displays)
    (hflips : (v.video.pending.map Prod.snd).count d = 0) : Lets v (v.displayUnbind d) := by
  have hdisplays := displays_displayUnbind hd
  refine ⟨⟨?_, ?_, tells_displayUnbind h.tells hd⟩, rfl, ⟨rfl, rfl, rfl⟩, ?_,
    DrmVideo.pending_displayUnbind ..⟩
  · exact DrmVideo.sound_displayUnbind h.books hflips
  · intro e he f hf heq
    rw [hdisplays] at he hf
    exact h.connectors e (List.mem_of_mem_erase he) f (List.mem_of_mem_erase hf) heq
  · rw [hdisplays]
    exact Stays.displayUnbind hd

theorem Linked.lets (h : v.Linked) : Lets v v :=
  ⟨h, rfl, ⟨rfl, rfl, rfl⟩, Stays.refl _, rfl⟩

/-- A loop that lets displays go leaves the others and those that are marked. -/
theorem Linked.letGo {ds : List ℕ} (h : v.Linked) (hnodup : ds.Nodup)
    (hmem : ∀ d ∈ ds, d ∈ v.video.displays)
    (hflips : ∀ d ∈ ds, (v.plugs d).available = false →
      (v.video.pending.map Prod.snd).count d = 0) :
    Lets v (ds.foldl KmsVideo.letGo v) ∧
      ∀ e, e ∈ (ds.foldl KmsVideo.letGo v).video.displays ↔
        e ∈ v.video.displays ∧ (e ∈ ds → (v.plugs e).available = true) := by
  induction ds generalizing v with
  | nil => exact ⟨h.lets, fun e => by simp⟩
  | cons d ds ih =>
    obtain ⟨hnot, hnodup⟩ := List.nodup_cons.mp hnodup
    have hrest : ∀ e ∈ ds, e ∈ v.video.displays := fun e he => hmem e (List.mem_cons_of_mem d he)
    rw [List.foldl_cons, KmsVideo.letGo]
    cases havail : (v.plugs d).available with
    | true =>
      rw [if_pos rfl]
      obtain ⟨hlets, hlist⟩ := ih h hnodup hrest fun e he =>
        hflips e (List.mem_cons_of_mem d he)
      refine ⟨hlets, fun e => ?_⟩
      rw [hlist e, List.mem_cons]
      apply and_congr_right
      intro _
      constructor
      · rintro hin (rfl | he)
        · exact havail
        · exact hin he
      · exact fun hin he => hin (.inr he)
    | false =>
      rw [if_neg Bool.false_ne_true]
      have hd := hmem d List.mem_cons_self
      have hlets := h.displayUnbind hd (hflips d List.mem_cons_self havail)
      have hdisplays := displays_displayUnbind hd
      have hnext := ih hlets.linked hnodup ?_ ?_
      · refine ⟨hlets.trans hnext.1, fun e => ?_⟩
        have hnodup' : v.video.displays.Nodup := h.books.nodup
        rw [hnext.2 e, hdisplays, hnodup'.mem_erase_iff, List.mem_cons]
        constructor
        · rintro ⟨⟨hne, he⟩, hin⟩
          refine ⟨he, ?_⟩
          rintro (heq | hds)
          · exact absurd heq hne
          · exact hin hds
        · rintro ⟨he, hin⟩
          refine ⟨⟨?_, he⟩, fun hds => hin (.inr hds)⟩
          rintro rfl
          rw [hin (.inl rfl)] at havail
          cases havail
      · intro e he
        rw [hdisplays]
        apply (List.mem_erase_of_ne _).mpr (hrest e he)
        rintro rfl
        exact hnot he
      · intro e he hgone
        rw [hlets.pending]
        exact hflips e (List.mem_cons_of_mem d he) hgone

/-- The displays are let go whose connector was not found. -/
theorem Linked.unbindGone (h : v.Linked)
    (hflips : ∀ d ∈ v.video.displays, (v.plugs d).available = false →
      (v.video.pending.map Prod.snd).count d = 0) :
    Lets v v.unbindGone ∧ ∀ d, d ∈ v.unbindGone.video.displays ↔
      d ∈ v.video.displays ∧ (v.plugs d).available = true := by
  obtain ⟨hlets, hlist⟩ := h.letGo h.books.nodup (fun d hd => hd) hflips
  refine ⟨hlets, fun d => (hlist d).trans ?_⟩
  exact and_congr_right fun hd => ⟨fun hin => hin hd, fun havail _ => havail⟩

/-- Marks are cleared and nothing else. -/
theorem clearAvailable_spec (h : v.Linked) :
    v.clearAvailable.Linked ∧ v.clearAvailable.video = v.video ∧
      (v.clearAvailable.hotplug = v.hotplug ∧ v.clearAvailable.master = v.master ∧
        v.clearAvailable.vtTimer = v.vtTimer) ∧
      (∀ d, (v.clearAvailable.plugs d).connector = (v.plugs d).connector) ∧
      ∀ d ∈ v.video.displays, (v.clearAvailable.plugs d).available = false := by
  have hloop : ∀ (ds : List ℕ) (v : KmsVideo β), v.Linked →
      let w := ds.foldl (fun v d => v.mark d Plug.cleared) v
      w.Linked ∧ w.video = v.video ∧
        (w.hotplug = v.hotplug ∧ w.master = v.master ∧ w.vtTimer = v.vtTimer) ∧
        (∀ d, (w.plugs d).connector = (v.plugs d).connector) ∧
        ∀ d, d ∈ ds ∨ (v.plugs d).available = false → (w.plugs d).available = false := by
    intro ds
    induction ds with
    | nil => exact fun v h => ⟨h, rfl, ⟨rfl, rfl, rfl⟩, fun _ => rfl, by simp⟩
    | cons d ds ih =>
      intro v h
      have hmark : (v.mark d Plug.cleared).Linked := by
        apply h.mark
        exact fun _ => ⟨rfl, rfl⟩
      obtain ⟨hlinked, hvideo, hflags, hconnector, havail⟩ := ih _ hmark
      refine ⟨hlinked, hvideo, hflags, fun e => (hconnector e).trans ?_, fun e he => havail e ?_⟩
      · by_cases heq : e = d
        · rw [heq, plugs_mark_self]
          rfl
        · rw [plugs_mark_of_ne v heq]
      · by_cases heq : e = d
        · rw [heq, plugs_mark_self]
          exact .inr rfl
        · rw [plugs_mark_of_ne v heq]
          exact he.imp_left fun hmem => (List.mem_cons.mp hmem).resolve_left heq
  obtain ⟨hlinked, hvideo, hflags, hconnector, havail⟩ := hloop v.video.displays v h
  exact ⟨hlinked, hvideo, hflags, hconnector, fun d hd => havail d (.inl hd)⟩

/-- A display is announced once. -/
theorem Linked.displayReady (h : v.Linked) {d : ℕ} (hd : d ∈ v.video.displays) :
    (v.displayReady d).Linked := by
  unfold KmsVideo.displayReady
  cases huse : (v.plugs d).inUse with
  | true => exact h
  | false =>
    rw [if_neg Bool.false_ne_true]
    refine ⟨h.books, fun e he f hf heq => ?_, ?_⟩
    · have hconnector : ∀ e, ((v.mark d Plug.used).plugs e).connector =
          (v.plugs e).connector := by
        intro e
        by_cases he : e = d
        · rw [he, plugs_mark_self]
          rfl
        · rw [plugs_mark_of_ne v he]
      change ((v.mark d Plug.used).plugs e).connector =
        ((v.mark d Plug.used).plugs f).connector at heq
      rw [hconnector, hconnector] at heq
      exact h.connectors e he f hf heq
    · have hperm : (v.video.displays.filter fun e =>
          ((v.mark d Plug.used).plugs e).inUse).Perm
            (d :: v.video.displays.filter fun e => (v.plugs e).inUse) := by
        apply filter_perm_cons h.books.nodup hd huse
        · rw [plugs_mark_self]
          rfl
        · intro e _ hne
          rw [plugs_mark_of_ne v hne]
      apply (h.tells.added _).perm hperm.symm
      intro hmem
      have hin := (List.mem_filter.mp hmem).2
      rw [huse] at hin
      cases hin

/-- The last loop of a hotplug puts all displays into use. -/
theorem Linked.readyAll {ds : List ℕ} (h : v.Linked) (hds : ∀ d ∈ ds, d ∈ v.video.displays) :
    (ds.foldl KmsVideo.displayReady v).Linked ∧
      (ds.foldl KmsVideo.displayReady v).video = v.video ∧
      (ds.foldl KmsVideo.displayReady v).vtTimer = v.vtTimer ∧
      (∀ d, ((ds.foldl KmsVideo.displayReady v).plugs d).connector = (v.plugs d).connector) ∧
      ∀ d, d ∈ ds ∨ (v.plugs d).inUse = true →
        ((ds.foldl KmsVideo.displayReady v).plugs d).inUse = true := by
  induction ds generalizing v with
  | nil => exact ⟨h, rfl, rfl, fun _ => rfl, by simp⟩
  | cons d ds ih =>
    have hvideo : (v.displayReady d).video = v.video := by
      unfold KmsVideo.displayReady
      split_ifs
      · rfl
      · rfl
    have htimer : (v.displayReady d).vtTimer = v.vtTimer := by
      unfold KmsVideo.displayReady
      split_ifs
      · rfl
      · rfl
    have hplugs : ∀ e, ((v.displayReady d).plugs e).connector = (v.plugs e).connector ∧
        (e = d ∨ (v.plugs e).inUse = true → ((v.displayReady d).plugs e).inUse = true) := by
      intro e
      unfold KmsVideo.displayReady
      split_ifs with huse
      · refine ⟨rfl, ?_⟩
        rintro (rfl | he)
        · exact huse
        · exact he
      · change ((v.mark d Plug.used).plugs e).connector = _ ∧
          (_ → ((v.mark d Plug.used).plugs e).inUse = true)
        by_cases he : e = d
        · rw [he, plugs_mark_self]
          exact ⟨rfl, fun _ => rfl⟩
        · rw [plugs_mark_of_ne v he]
          exact ⟨rfl, fun hin => hin.resolve_left he⟩
    have hready := h.displayReady (hds d List.mem_cons_self)
    obtain ⟨hlinked, hvideo', htimer', hconnector, hinUse⟩ := ih hready fun e he =>
      hvideo ▸ hds e (List.mem_cons_of_mem d he)
    refine ⟨hlinked, hvideo'.trans hvideo, htimer'.trans htimer,
      fun e => (hconnector e).trans (hplugs e).1, fun e he => hinUse e ?_⟩
    rcases he with he | he
    · rcases List.mem_cons.mp he with rfl | he
      · exact .inr ((hplugs e).2 (.inl rfl))
      · exact .inl he
    · exact .inr ((hplugs e).2 (.inr he))

/-- The kernel owes no flip of a display whose connector it does not report any more. -/
def UnplugMeets (v : KmsVideo β) (ans : HotplugAnswers α) : Prop :=
  ∀ res, ans.res = some res → ∀ d ∈ v.video.displays,
    (v.plugs d).connector ∉ pluggedIds res.connectors →
      (v.video.pending.map Prod.snd).count d = 0

theorem drmVideoHotplug_eq {modeset : Bool} {ans : HotplugAnswers α} {res : KmsResources}
    (hawake : v.video.awake = true) (hneed : v.hotplug = true) (hres : ans.res = some res) :
    v.drmVideoHotplug ops data modeset ans =
      (rounds data res.crtcs modeset v.clearAvailable res.connectors).2.unbindGone.finishHotplug
        ops (rounds data res.crtcs modeset v.clearAvailable res.connectors).1 ans := by
  rw [drmVideoHotplug, hawake, hneed, hres]
  rfl

/-- What the end of a hotplug makes of the device. -/
structure Settled (u : KmsVideo β) (needs : Bool) (out : ℤ × KmsVideo β) : Prop where
  linked : out.2.Linked
  stays : Stays u.video out.2.video
  connector : ∀ d, (out.2.plugs d).connector = (u.plugs d).connector
  timer : out.2.vtTimer = u.vtTimer
  again : out.1 ≠ 0 → out.2.hotplug = u.hotplug
  ready : out.1 = 0 → out.2.hotplug = false ∧
    ∀ d ∈ out.2.video.displays, (out.2.plugs d).inUse = true
  online : out.1 = 0 → needs = true → u.video.legacy = false →
    ∀ d ∈ u.video.displays, out.2.isOnline d = true

/-- What does not touch the list leaves the seat as it is. -/
theorem Linked.withVideo (h : v.Linked) {video : DrmVideo β} (hstays : Stays v.video video)
    (hsound : video.books.Sound fun _ => 0) : ({ v with video := video } : KmsVideo β).Linked := by
  refine ⟨hsound, ?_, ?_⟩
  · dsimp only
    rw [hstays.displays]
    exact h.connectors
  · dsimp only
    rw [hstays.displays]
    exact h.tells

theorem Linked.finishHotplug {u : KmsVideo β} (h : u.Linked) (ops : DrmOps β α) (needs : Bool)
    (ans : HotplugAnswers α) : Settled u needs (u.finishHotplug ops needs ans) := by
  rw [KmsVideo.finishHotplug]
  by_cases hempty : u.video.displays.isEmpty = true
  · have hnil := List.isEmpty_iff.mp hempty
    rw [if_pos hempty]
    refine ⟨⟨h.books, h.connectors, h.tells⟩, Stays.refl _, fun _ => rfl, rfl,
      fun hret => absurd rfl hret, fun _ => ⟨rfl, fun d hd => ?_⟩, fun _ _ _ d hd => ?_⟩
    · rw [hnil] at hd
      cases hd
    · rw [hnil] at hd
      cases hd
  rw [if_neg hempty]
  have hmodeset : ∃ ret video, (if needs then u.video.tryModeset ops ans.modeset ans.retry
      else (0, u.video)) = (ret, video) ∧ Stays u.video video ∧ video.books.Sound (fun _ => 0) ∧
      (ret = 0 → needs = true → u.video.legacy = false → ∀ d ∈ u.video.displays, ∀ disp,
        video.objs d = some disp → disp.online = true) := by
    cases needs with
    | false => exact ⟨0, u.video, rfl, Stays.refl _, h.books, fun _ hneeds => by cases hneeds⟩
    | true =>
      refine ⟨_, _, rfl, Stays.tryModeset .., DrmVideo.sound_tryModeset _ _ h.books, ?_⟩
      intro hret _ hlegacy d hd disp hobj
      exact Stays.tryModeset_online h.books hlegacy hret hd hobj
  obtain ⟨ret, video, heq, hstays, hsound, honline⟩ := hmodeset
  rw [heq]
  dsimp only
  have hlinked := h.withVideo hstays hsound
  by_cases hret : ret ≠ 0
  · rw [if_pos hret]
    exact ⟨hlinked, hstays, fun _ => rfl, rfl, fun _ => rfl, fun hzero => absurd hzero hret,
      fun hzero => absurd hzero hret⟩
  rw [if_neg hret]
  obtain ⟨hready, hvideo, htimer, hconnector, hinUse⟩ :=
    hlinked.readyAll fun d (hd : d ∈ video.displays) => hd
  refine ⟨⟨hready.books, hready.connectors, hready.tells⟩, ?_, hconnector, htimer,
    fun hzero => absurd rfl hzero, fun _ => ⟨rfl, fun d hd => ?_⟩, fun _ hneeds hlegacy d hd => ?_⟩
  · dsimp only
    rw [hvideo]
    exact hstays
  · dsimp only at hd
    rw [hvideo] at hd
    exact hinUse d (.inl hd)
  · obtain ⟨disp, hobj⟩ := hstays.exists_of_mem hsound hd
    rw [isOnline]
    dsimp only
    rw [hvideo]
    change (video.objs d).any (·.online) = true
    rw [hobj]
    exact honline (not_not.mp hret) hneeds hlegacy d hd disp hobj

/-- What a hotplug makes of a device, where the kernel gives the resources. -/
structure Outcome (v : KmsVideo β) (res : KmsResources) (out : ℤ × KmsVideo β) : Prop where
  /-- The displays stay whose connector is reported, and no others. -/
  kept : ∀ d ∈ v.video.displays, d ∈ out.2.video.displays ↔
    (v.plugs d).connector ∈ pluggedIds res.connectors
  same : ∀ d ∈ v.video.displays, (out.2.plugs d).connector = (v.plugs d).connector
  /-- A new display is on a connector that is reported and had none, and on a CRTC that no
  display had, also none of those that go. -/
  fresh : ∀ d ∈ out.2.video.displays, d ∉ v.video.displays →
    (out.2.plugs d).connector ∈ pluggedIds res.connectors ∧
    (∀ e ∈ v.video.displays, (v.plugs e).connector ≠ (out.2.plugs d).connector) ∧
    ∀ disp, out.2.video.objs d = some disp → v.video.isCrtcInUse disp.crtc = false
  /-- A connector is left without a display only if its CRTCs are all taken, be it by
  displays that go. -/
  shown : ∀ ans ∈ res.connectors, ans.plugged = true → ∀ conn, ans.conn = some conn →
    ans.bind.Works v.video.legacy →
      (∃ d ∈ out.2.video.displays, (out.2.plugs d).connector = ans.id) ∨
      ∀ p ∈ conn.candidates res.crtcs,
        v.video.isCrtcInUse p.1 = true ∨ out.2.video.isCrtcInUse p.1 = true
  /-- A hotplug that worked puts all displays into use, and online unless the device is a
  legacy one, whose modesets may fail one by one. -/
  ready : out.1 = 0 → out.2.hotplug = false ∧ ∀ d ∈ out.2.video.displays,
    (out.2.plugs d).inUse = true ∧ (v.video.legacy = false → out.2.isOnline d = true)
  /-- One that failed is still to be done. -/
  again : out.1 ≠ 0 → out.2.hotplug = true

/-- A hotplug keeps connectors apart and the seat informed. -/
structure Hotplugged (v : KmsVideo β) (out : ℤ × KmsVideo β) : Prop where
  linked : out.2.Linked
  awake : out.2.video.awake = v.video.awake
  timer : out.2.vtTimer = v.vtTimer
  done : v.video.awake = true → out.1 = 0 → v.hotplug = true → out.2.hotplug = false

/-- The device behind the loops that find connectors and let displays go. -/
theorem Linked.loops (h : v.Linked) {ans : HotplugAnswers α} (hmeets : v.UnplugMeets ans)
    {res : KmsResources} (hres : ans.res = some res) (data : β) (modeset : Bool) :
    let s := rounds data res.crtcs modeset v.clearAvailable res.connectors
    Asked v.clearAvailable res.connectors s ∧ Lets s.2 s.2.unbindGone ∧
      ∀ d, d ∈ s.2.unbindGone.video.displays ↔
        d ∈ s.2.video.displays ∧ (s.2.plugs d).available = true := by
  obtain ⟨hlinked, hvideo, hflags, hconnector, havail⟩ := clearAvailable_spec h
  rw [← hvideo] at havail
  have hasked := asked_rounds hlinked havail data res.crtcs modeset res.connectors
  refine ⟨hasked, ?_⟩
  apply hasked.linked.unbindGone
  intro d hd hgone
  rw [hasked.settings.2.2, hvideo]
  by_cases hold : d ∈ v.clearAvailable.video.displays
  · obtain ⟨hsame, -, hiff⟩ := hasked.plugs d hold
    apply hmeets res hres d (hvideo ▸ hold)
    intro hmem
    rw [← hconnector d] at hmem
    rw [hiff.mpr hmem] at hgone
    cases hgone
  · rw [(hasked.fresh d hd hold).2.1] at hgone
    cases hgone

theorem Linked.hotplug (h : v.Linked) {ans : HotplugAnswers α} (hmeets : v.UnplugMeets ans)
    (ops : DrmOps β α) (data : β) (modeset : Bool) :
    Hotplugged v (v.drmVideoHotplug ops data modeset ans) := by
  by_cases hskip : (!v.video.awake || !v.hotplug) = true
  · rw [drmVideoHotplug, if_pos hskip]
    refine ⟨h, rfl, rfl, fun hawake _ hneed => ?_⟩
    simp [hawake, hneed] at hskip
  have hawake : v.video.awake = true := by
    cases hawake : v.video.awake with
    | true => rfl
    | false => simp [hawake] at hskip
  have hneed : v.hotplug = true := by
    cases hneed : v.hotplug with
    | true => rfl
    | false => simp [hneed] at hskip
  cases hres : ans.res with
  | none =>
    rw [drmVideoHotplug, if_neg hskip, hres]
    exact ⟨h, rfl, rfl, fun _ hret => by cases hret⟩
  | some res =>
    rw [drmVideoHotplug_eq hawake hneed hres]
    obtain ⟨-, hvideo, hflags, -, -⟩ := clearAvailable_spec h
    obtain ⟨hasked, hlets, -⟩ := h.loops hmeets hres data modeset
    have hsettled := hlets.linked.finishHotplug ops
      (rounds data res.crtcs modeset v.clearAvailable res.connectors).1 ans
    refine ⟨hsettled.linked, ?_, ?_, fun _ hret _ => (hsettled.ready hret).1⟩
    · rw [hsettled.stays.awake, hlets.stays.awake]
      exact hasked.settings.2.1.trans (congrArg DrmVideo.awake hvideo)
    · rw [hsettled.timer, hlets.flags.2.2, hasked.flags.2.2.1, hflags.2.2]

/-- A display that is there at the end was there behind the loops, on its CRTC. -/
theorem Settled.obj {u : KmsVideo β} {needs : Bool} {out : ℤ × KmsVideo β}
    (h : Settled u needs out) (hlets : Lets v u) {d : ℕ} {disp : DrmDisplay β}
    (hobj : out.2.video.objs d = some disp) :
    ∃ old, v.video.objs d = some old ∧ disp.crtc = old.crtc ∧ (old.online → disp.online) := by
  obtain ⟨mid, hmid, hcrtc, honline⟩ := h.stays.objs d disp hobj
  obtain ⟨old, hold, hcrtc', honline'⟩ := hlets.stays.objs d mid hmid
  exact ⟨old, hold, hcrtc.trans hcrtc', fun h => honline (honline' h)⟩

theorem exists_of_any {crtc : ℕ} {disp : Option (DrmDisplay β)}
    (h : disp.any (·.crtc == crtc) = true) : ∃ other, disp = some other ∧ other.crtc = crtc := by
  cases disp with
  | none => cases h
  | some other => exact ⟨other, rfl, by simpa using h⟩

/-- A CRTC that a display has behind the loop over the connectors was in use before, or still
is in the end. -/
theorem Settled.crtc_inUse {start u : KmsVideo β} {asked : List ConnectorAnswers}
    {s : Bool × KmsVideo β} {needs : Bool} {out : ℤ × KmsVideo β} (h : Settled u needs out)
    (hlets : Lets s.2 u) (hasked : Asked start asked s)
    (hend : ∀ d, d ∈ out.2.video.displays ↔
      d ∈ s.2.video.displays ∧ (s.2.plugs d).available = true)
    {crtc : ℕ} (hused : s.2.video.isCrtcInUse crtc = true) :
    start.video.isCrtcInUse crtc = true ∨ out.2.video.isCrtcInUse crtc = true := by
  obtain ⟨e, he, hany⟩ := List.any_eq_true.mp hused
  by_cases hold : e ∈ start.video.displays
  · left
    refine List.any_eq_true.mpr ⟨e, hold, ?_⟩
    rwa [← hasked.objs e hold]
  · right
    have hin : e ∈ out.2.video.displays := (hend e).mpr ⟨he, (hasked.fresh e he hold).2.1⟩
    obtain ⟨disp, hobj⟩ := h.linked.exists_obj hin
    obtain ⟨old, hold', hcrtc, -⟩ := h.obj hlets hobj
    refine List.any_eq_true.mpr ⟨e, hin, ?_⟩
    rw [hold'] at hany
    rw [hobj]
    simpa [hcrtc] using hany

/-- A hotplug of an atomic device that worked leaves all displays online: they were online,
or there was a modeset. -/
theorem Settled.all_online {start u : KmsVideo β} {asked : List ConnectorAnswers}
    {s : Bool × KmsVideo β} {out : ℤ × KmsVideo β} (h : Settled u s.1 out)
    (hlets : Lets s.2 u) (hasked : Asked start asked s)
    (hend : ∀ d, d ∈ out.2.video.displays ↔
      d ∈ s.2.video.displays ∧ (s.2.plugs d).available = true)
    (hret : out.1 = 0) (hlegacy : start.video.legacy = false) {d : ℕ}
    (hd : d ∈ out.2.video.displays) : out.2.isOnline d = true := by
  obtain ⟨hbefore, havail⟩ := (hend d).mp hd
  cases hneeds : s.1 with
  | true =>
    apply h.online hret hneeds
    · rw [hlets.stays.legacy]
      exact hasked.settings.1.trans hlegacy
    · rw [← h.stays.displays]
      exact hd
  | false =>
    have honline := hasked.online hneeds d hbefore havail
    obtain ⟨disp, hobj⟩ := h.linked.exists_obj hd
    obtain ⟨old, hold, -, hkeep⟩ := h.obj hlets hobj
    rw [isOnline, hold] at honline
    rw [isOnline, hobj]
    exact hkeep honline

theorem Linked.outcome (h : v.Linked) {ans : HotplugAnswers α} (hmeets : v.UnplugMeets ans)
    (hawake : v.video.awake = true) (hneed : v.hotplug = true) {res : KmsResources}
    (hres : ans.res = some res) (hroomy : Roomy v res.connectors) (ops : DrmOps β α) (data : β)
    (modeset : Bool) : Outcome v res (v.drmVideoHotplug ops data modeset ans) := by
  rw [drmVideoHotplug_eq hawake hneed hres]
  obtain ⟨hlinked, hvideo, hflags, hconnector, havail⟩ := clearAvailable_spec h
  obtain ⟨hasked, hlets, hlist⟩ := h.loops hmeets hres data modeset
  have hroomy' : Roomy v.clearAvailable res.connectors := ⟨hvideo ▸ hroomy.free, hroomy.apart⟩
  have hshown := fun ans hans => @shown_rounds _ _ hlinked (hvideo ▸ havail) data res.crtcs modeset
    res.connectors hroomy' ans hans
  have hsettled := hlets.linked.finishHotplug ops
    (rounds data res.crtcs modeset v.clearAvailable res.connectors).1 ans
  revert hasked hlets hlist hshown hsettled
  generalize rounds data res.crtcs modeset v.clearAvailable res.connectors = s
  intro hasked hlets hlist hshown hsettled
  have hmem : ∀ {d}, d ∈ v.video.displays → d ∈ v.clearAvailable.video.displays := by
    intro d hd
    rwa [hvideo]
  have hend : ∀ d, d ∈ (s.2.unbindGone.finishHotplug ops s.1 ans).2.video.displays ↔
      d ∈ s.2.video.displays ∧ (s.2.plugs d).available = true := by
    intro d
    rw [hsettled.stays.displays]
    exact hlist d
  have hsame : ∀ d, ((s.2.unbindGone.finishHotplug ops s.1 ans).2.plugs d).connector =
      (s.2.plugs d).connector := by
    intro d
    rw [hsettled.connector, hlets.plugs]
  generalize s.2.unbindGone.finishHotplug ops s.1 ans = out at *
  refine ⟨fun d hd => ?_, fun d hd => ?_, fun d hd hnew => ⟨?_, fun e he heq => ?_, ?_⟩,
    fun last hlast hplugged conn hconn hworks => ?_, fun hret => ⟨(hsettled.ready hret).1, ?_⟩,
    fun hret => ?_⟩
  · obtain ⟨-, -, havail⟩ := hasked.plugs d (hmem hd)
    rw [hend, havail, hconnector]
    exact and_iff_right (hasked.mem (hmem hd))
  · rw [hsame, (hasked.plugs d (hmem hd)).1, hconnector]
  · rw [hsame]
    exact (hasked.fresh d ((hend d).mp hd).1 (hvideo ▸ hnew)).1
  · -- two displays on one connector are one
    rw [hsame, ← hconnector, ← (hasked.plugs e (hmem he)).1] at heq
    have hone := hasked.linked.connectors e (hasked.mem (hmem he)) d ((hend d).mp hd).1 heq
    exact hnew (hone ▸ he)
  · -- so are two displays on one CRTC
    intro disp hobj
    obtain ⟨old, hold, hcrtc, -⟩ := hsettled.obj hlets hobj
    rw [← Bool.not_eq_true]
    intro hused
    obtain ⟨e, he, hany⟩ := List.any_eq_true.mp hused
    obtain ⟨other, hother, hsame'⟩ := exists_of_any hany
    have hone := hasked.linked.books.apart e (hasked.mem (hmem he)) d ((hend d).mp hd).1 ?_
    · exact hnew (hone ▸ he)
    · have hobj' := hasked.objs e (hmem he)
      rw [hvideo] at hobj'
      change (s.2.video.objs e).map (·.crtc) = (s.2.video.objs d).map (·.crtc)
      rw [hobj', hother, hold, Option.map_some, Option.map_some, hsame', hcrtc]
  · rcases hshown last hlast hplugged hconn (hvideo ▸ hworks) with ⟨d, hd, hid⟩ | hused
    · have hplug : last.id ∈ pluggedIds res.connectors :=
        List.mem_map.mpr ⟨last, List.mem_filter.mpr ⟨hlast, hplugged⟩, rfl⟩
      exact .inl ⟨d, (hend d).mpr ⟨hd, hasked.available hd (hid ▸ hplug)⟩, (hsame d).trans hid⟩
    · refine .inr fun p hp => ?_
      rw [← hvideo]
      exact hsettled.crtc_inUse hlets hasked hend (hused p hp)
  · intro d hd
    exact ⟨(hsettled.ready hret).2 d hd, fun hlegacy =>
      hsettled.all_online hlets hasked hend hret (hvideo ▸ hlegacy) hd⟩
  · rw [hsettled.again hret, hlets.flags.1, hasked.flags.1, hflags.1, hneed]

/-- What holds of a device between any two events. -/
structure Consistent (v : KmsVideo β) : Prop where
  /-- No two displays are on one connector. -/
  connectors : ∀ d ∈ v.video.displays, ∀ e ∈ v.video.displays,
    (v.plugs d).connector = (v.plugs e).connector → d = e
  /-- The displays are there, and no two are on one CRTC. -/
  crtcs : ∀ d ∈ v.video.displays, ∃ disp, v.video.objs d = some disp ∧
    ∀ e ∈ v.video.displays, ∀ other, v.video.objs e = some other → other.crtc = disp.crtc → e = d
  /-- The seat was told of each display that came and went at the right time. -/
  seat : ∃ known, heard v.told = some known ∧
    ∀ d, d ∈ known ↔ d ∈ v.video.displays ∧ (v.plugs d).inUse = true
  /-- A hotplug that is still to be done will be tried again. -/
  retry : v.video.awake = true → v.hotplug = true → v.vtTimer = true

theorem Linked.consistent (h : v.Linked)
    (hretry : v.video.awake = true → v.hotplug = true → v.vtTimer = true) : v.Consistent := by
  refine ⟨h.connectors, fun d hd => ?_, ?_, hretry⟩
  · obtain ⟨disp, hobj⟩ := h.exists_obj hd
    refine ⟨disp, hobj, fun e he other hother hsame => h.books.apart e he d hd ?_⟩
    change (v.video.objs e).map (·.crtc) = (v.video.objs d).map (·.crtc)
    rw [hother, hobj, Option.map_some, Option.map_some, hsame]
  · obtain ⟨known, hheard, hperm⟩ := h.tells
    refine ⟨known, hheard, fun d => ?_⟩
    rw [hperm.mem_iff, List.mem_filter]

/-- The flags of a device do not matter for its displays. -/
theorem Linked.wake (h : v.Linked) (awake hotplug master vtTimer : Bool) :
    ({ v with
      video := { v.video with awake := awake }
      hotplug := hotplug
      master := master
      vtTimer := vtTimer } : KmsVideo β).Linked :=
  ⟨h.books, h.connectors, h.tells⟩

/-- A wake-up that works leaves no hotplug to be done. -/
theorem Linked.drmVideoWakeUp (h : v.Linked) (ops : DrmOps β α) (data : β) (setMaster : ℤ)
    {ans : HotplugAnswers α} (hmeets : v.UnplugMeets ans) :
    (v.drmVideoWakeUp ops data setMaster ans).2.Linked ∧
      (v.drmVideoWakeUp ops data setMaster ans).2.vtTimer = v.vtTimer ∧
      ((v.drmVideoWakeUp ops data setMaster ans).1 = 0 →
        (v.drmVideoWakeUp ops data setMaster ans).2.hotplug = false) := by
  unfold KmsVideo.drmVideoWakeUp
  by_cases hmaster : (!v.master && decide (setMaster ≠ 0)) = true
  · rw [if_pos hmaster]
    refine ⟨h, rfl, fun hret => ?_⟩
    exact absurd hret (of_decide_eq_true (Bool.and_eq_true_iff.mp hmaster).2)
  rw [if_neg hmaster]
  have hlinked : v.woken.Linked := h.wake true true true v.vtTimer
  have hmeets' : v.woken.UnplugMeets ans := hmeets
  have hwoken := hlinked.hotplug hmeets' ops data true
  generalize KmsVideo.drmVideoHotplug ops data true ans v.woken = out at hwoken ⊢
  obtain ⟨ret, w⟩ := out
  dsimp only
  by_cases hret : ret ≠ 0
  · rw [if_pos hret]
    exact ⟨hwoken.linked.wake _ _ _ _, hwoken.timer, fun hzero => absurd hzero hret⟩
  · rw [if_neg hret]
    exact ⟨hwoken.linked, hwoken.timer, fun _ => hwoken.done rfl (not_not.mp hret) rfl⟩

/-- No unplugged display owes a flip when a hotplug lets it go. -/
def EventMeets (v : KmsVideo β) : KmsEvent α → Prop
  | .wakeUp _ ans => v.UnplugMeets ans
  | .poll ans => v.UnplugMeets ans
  | .vtTimeout _ ans => v.UnplugMeets ans
  | _ => True

/-- The displays are linked, and a hotplug that is still to be done will be tried again. -/
structure Steady (v : KmsVideo β) : Prop where
  linked : v.Linked
  retry : v.video.awake = true → v.hotplug = true → v.vtTimer = true

theorem Steady.withVideo (h : v.Steady) {video : DrmVideo β} (hstays : Stays v.video video)
    (hsound : video.books.Sound fun _ => 0) : ({ v with video := video } : KmsVideo β).Steady :=
  ⟨h.linked.withVideo hstays hsound, fun hawake => h.retry (hstays.awake ▸ hawake)⟩

theorem Steady.videoWakeUp (h : v.Steady) (ops : DrmOps β α) (data : β) (setMaster : ℤ)
    {ans : HotplugAnswers α} (hmeets : v.UnplugMeets ans) :
    (v.videoWakeUp ops data setMaster ans).Steady := by
  have hwoken := h.linked.drmVideoWakeUp ops data setMaster hmeets
  unfold KmsVideo.videoWakeUp
  split_ifs
  · exact h
  · generalize KmsVideo.drmVideoWakeUp ops data setMaster ans v = out at hwoken ⊢
    obtain ⟨ret, w⟩ := out
    obtain ⟨hlinked, htimer, hdone⟩ := hwoken
    dsimp only
    split_ifs with hret
    · exact ⟨hlinked.wake _ _ _ _, fun hawake => by cases hawake⟩
    · refine ⟨hlinked.wake _ _ _ _, fun _ hneed => ?_⟩
      exact absurd (hneed.symm.trans (hdone (not_not.mp hret))) (by decide)

theorem Steady.vtTimeout (h : v.Steady) (ops : DrmOps β α) (data : β) (setMaster : ℤ)
    {ans : HotplugAnswers α} (hmeets : v.UnplugMeets ans) :
    (v.vtTimeout ops data setMaster ans).Steady := by
  have hwoken := h.linked.drmVideoWakeUp ops data setMaster hmeets
  unfold KmsVideo.vtTimeout
  split_ifs with hrun
  · exact h
  · generalize KmsVideo.drmVideoWakeUp ops data setMaster ans v = out at hwoken ⊢
    obtain ⟨ret, w⟩ := out
    obtain ⟨hlinked, htimer, hdone⟩ := hwoken
    dsimp only at htimer ⊢
    split_ifs with hret
    · refine ⟨hlinked, fun _ _ => ?_⟩
      rw [htimer]
      simpa using hrun
    · refine ⟨hlinked.wake _ _ _ _, fun _ hneed => ?_⟩
      exact absurd (hneed.symm.trans (hdone (not_not.mp hret))) (by decide)

theorem Steady.drmVideoPoll (h : v.Steady) (ops : DrmOps β α) (data : β) {ans : HotplugAnswers α}
    (hmeets : v.UnplugMeets ans) : (v.drmVideoPoll ops data ans).Steady := by
  have hpolled := (h.linked.wake v.video.awake true v.master v.vtTimer).hotplug hmeets ops data
    false
  unfold KmsVideo.drmVideoPoll
  generalize KmsVideo.drmVideoHotplug ops data false ans _ = out at hpolled ⊢
  obtain ⟨ret, w⟩ := out
  dsimp only
  split_ifs with hret
  · exact ⟨hpolled.linked.wake _ _ _ _, fun _ _ => rfl⟩
  · refine ⟨hpolled.linked, fun hawake hneed => ?_⟩
    have hdone := hpolled.done (hpolled.awake ▸ hawake) (not_not.mp hret) rfl
    exact absurd (hneed.symm.trans hdone) (by decide)

theorem steady_step (ops : DrmOps β α) (data : β) (v : KmsVideo β) (event : KmsEvent α)
    (h : v.Steady) (hmeets : v.EventMeets event) : (v.step ops data event).Steady := by
  cases event with
  | wakeUp setMaster ans => exact h.videoWakeUp ops data setMaster hmeets
  | poll ans => exact h.drmVideoPoll ops data hmeets
  | vtTimeout setMaster ans => exact h.vtTimeout ops data setMaster hmeets
  | sleep =>
    change (v.videoSleep).Steady
    unfold KmsVideo.videoSleep
    split_ifs
    · exact h
    · exact ⟨h.linked.wake _ _ _ _, fun hawake => by cases hawake⟩
  | swap d ans props commit =>
    exact h.withVideo (Stays.displaySwap ..) (DrmVideo.sound_displaySwap _ _ _ _ h.linked.books)
  | flipEvent crtc =>
    apply h.withVideo (Stays.displayEvent ..)
    rw [DrmVideo.books_displayEvent]
    exact h.linked.books.event crtc
  | pflip d =>
    apply h.withVideo (Stays.drmDisplayPflip ..)
    rw [DrmVideo.books_drmDisplayPflip]
    exact h.linked.books
  | setDpms d dpms ok =>
    apply h.withVideo (Stays.displaySetDpms ..)
    rw [DrmVideo.books_displaySetDpms]
    exact h.linked.books
  | acquire d => exact h.withVideo (Stays.acquire ..) (DrmVideo.sound_acquire d h.linked.books)
  | release d => exact h.withVideo (Stays.release ..) (DrmVideo.sound_release d h.linked.books)

theorem steady_new (legacy useOriginal : Bool) (desired : ℕ × ℕ) :
    (new legacy useOriginal desired : KmsVideo β).Steady := by
  refine ⟨⟨sound_new legacy useOriginal desired, fun d hd => ?_, tells_nil⟩, fun hawake => ?_⟩
  · cases hd
  · cases hawake

/-- `video_unref` lets all displays go, and the seat is told of those that it knows. -/
theorem tells_unbindAll (h : v.Linked) : heard v.unbindAll.told = some [] := by
  have hloop : ∀ (ds : List ℕ) (v : KmsVideo β), v.video.displays.Perm ds →
      Tells v.told (v.video.displays.filter fun d => (v.plugs d).inUse) →
      Tells (ds.foldl (fun v d => v.displayUnbind d) v).told [] := by
    intro ds
    induction ds with
    | nil =>
      intro v hperm htells
      rwa [hperm.eq_nil] at htells
    | cons d ds ih =>
      intro v hperm htells
      have hd : d ∈ v.video.displays := hperm.mem_iff.mpr List.mem_cons_self
      apply ih (v.displayUnbind d)
      · rw [displays_displayUnbind hd]
        have herase := hperm.erase d
        rwa [List.erase_cons_head] at herase
      · exact tells_displayUnbind htells hd
  obtain ⟨known, hheard, hperm⟩ :=
    hloop v.video.displays.reverse v v.video.displays.reverse_perm.symm h.tells
  rwa [hperm.eq_nil] at hheard

/-- In every run from the start of a device, whatever the kernel answers, connectors and
CRTCs are never shared by displays, the seat is told what comes and goes in order, a
hotplug that has failed is tried again, and when the device goes away in the end the seat
is left without displays of it. -/
theorem consistent_of_eventMeets (ops : DrmOps β α) (data : β) (legacy useOriginal : Bool)
    (desired : ℕ × ℕ) (events : List (KmsEvent α))
    (hmeets : Runs.Along (KmsVideo.step ops data) EventMeets (new legacy useOriginal desired)
      events) :
    Runs.Always (KmsVideo.step ops data) Consistent (new legacy useOriginal desired) events ∧
      heard (Runs.run (KmsVideo.step ops data) (new legacy useOriginal desired)
        events).unbindAll.told = some [] := by
  have hsteady := steady_new (β := β) legacy useOriginal desired
  constructor
  · apply Runs.Along.always (J := Steady) _ (steady_step ops data) hsteady hmeets
    exact fun v h => h.linked.consistent h.retry
  · exact tells_unbindAll (hmeets.invariant (steady_step ops data) hsteady).linked

/-- The device `u` in which `drm_video_wake_up` or, while it is awake, `drm_video_poll`
starts a hotplug. -/
def Asks (v u : KmsVideo β) : Prop :=
  u = v.woken ∨ u = { v with hotplug := true } ∧ v.video.awake = true

/-- At any time of a run, a hotplug leaves the device with the displays that `Outcome`
says. Without resources from the kernel it leaves the device alone and is still to be done. -/
theorem outcome_of_eventMeets (ops : DrmOps β α) (data : β) (legacy useOriginal : Bool)
    (desired : ℕ × ℕ) (events : List (KmsEvent α))
    (hmeets : Runs.Along (KmsVideo.step ops data) EventMeets (new legacy useOriginal desired)
      events) {v u : KmsVideo β}
    (hv : v = Runs.run (KmsVideo.step ops data) (new legacy useOriginal desired) events)
    (hu : v.Asks u) {ans : HotplugAnswers α} (hunplug : v.UnplugMeets ans) (modeset : Bool) :
    (∀ res, ans.res = some res → Roomy v res.connectors →
        Outcome v res (u.drmVideoHotplug ops data modeset ans)) ∧
      (ans.res = none →
        u.drmVideoHotplug ops data modeset ans = (eacces, u) ∧ u.hotplug = true) := by
  have hsteady := hmeets.invariant (steady_step ops data) (steady_new legacy useOriginal desired)
  rw [← hv] at hsteady
  have hlinked := hsteady.linked
  have hasked : u.video.awake = true ∧ u.hotplug = true := by
    rcases hu with rfl | ⟨rfl, hawake⟩
    · exact ⟨rfl, rfl⟩
    · exact ⟨hawake, rfl⟩
  constructor
  · intro res hres hroomy
    rcases hu with rfl | ⟨rfl, hawake⟩
    · have hwoken : v.woken.Linked := hlinked.wake true true true v.vtTimer
      have hroomy' : Roomy v.woken res.connectors := ⟨hroomy.free, hroomy.apart⟩
      have h := hwoken.outcome hunplug rfl rfl hres hroomy' ops data modeset
      exact ⟨h.kept, h.same, h.fresh, h.shown, h.ready, h.again⟩
    · have hasking : ({ v with hotplug := true } : KmsVideo β).Linked :=
        hlinked.wake v.video.awake true v.master v.vtTimer
      have h := hasking.outcome hunplug hawake rfl hres
        ⟨hroomy.free, hroomy.apart⟩ ops data modeset
      exact ⟨h.kept, h.same, h.fresh, h.shown, h.ready, h.again⟩
  · intro hnone
    refine ⟨?_, hasked.2⟩
    rw [drmVideoHotplug, if_neg (by simp [hasked.1, hasked.2]), hnone]

end KmsVideo

/-- An encoder on CRTC 5, the only one of the device. -/
def soleEncoder : KmsEncoder := ⟨5, 1⟩

/-- The connector `id` is plugged into a monitor with one mode. -/
def pluggedConnector (id addr : ℕ) : ConnectorAnswers where
  id := id
  conn := some ⟨true, [⟨1920, 1080, 0, true⟩], none, [some soleEncoder], none⟩
  bind := ⟨true, addr, .on, true⟩

/-- The device has one CRTC, and these connectors are plugged in. -/
def soleCrtc (connectors : List ConnectorAnswers) : HotplugAnswers Drm2dAnswers where
  res := some ⟨connectors, [5], by decide⟩
  modeset := willingAnswers
  retry := willingAnswers

/-- A monitor is found on connector 7 and moved to connector 8 when its flip is done. -/
def monitorMoved : List (KmsEvent Drm2dAnswers) :=
  [.wakeUp 0 (soleCrtc [pluggedConnector 7 0]), .acquire 0, .flipEvent 5, .pflip 0,
    .poll (soleCrtc [pluggedConnector 8 1])]

namespace KmsVideo

theorem eventMeets_monitorMoved :
    Runs.Along (KmsVideo.step drm2dOps Drm2dDisplay.new) EventMeets (new false false (0, 0))
      monitorMoved := by
  have hmeets : ∀ (v : KmsVideo Drm2dDisplay) (ans : HotplugAnswers Drm2dAnswers),
      v.video.pending = [] → v.UnplugMeets ans := by
    intro v ans hnone res _ d _ _
    rw [hnone]
    rfl
  exact ⟨hmeets _ _ rfl, trivial, trivial, trivial, hmeets _ _ rfl, trivial⟩

theorem consistent_monitorMoved :
    Runs.Always (KmsVideo.step drm2dOps Drm2dDisplay.new) Consistent (new false false (0, 0))
      monitorMoved ∧
    heard (Runs.run (KmsVideo.step drm2dOps Drm2dDisplay.new) (new false false (0, 0))
      monitorMoved).unbindAll.told = some [] :=
  consistent_of_eventMeets drm2dOps Drm2dDisplay.new _ _ _ _ eventMeets_monitorMoved

/-- The device after the move. The only CRTC was taken while connectors were looked at, so
the monitor is dark until the next hotplug. -/
def afterMove : KmsVideo Drm2dDisplay :=
  Runs.run (KmsVideo.step drm2dOps Drm2dDisplay.new) (new false false (0, 0)) monitorMoved

example : afterMove.video.displays = [] := rfl

theorem outcome_afterMove :
    Outcome afterMove ⟨[pluggedConnector 8 2], [5], by decide⟩
      (({ afterMove with hotplug := true } : KmsVideo Drm2dDisplay).drmVideoHotplug drm2dOps
        Drm2dDisplay.new false (soleCrtc [pluggedConnector 8 2])) := by
  refine (outcome_of_eventMeets drm2dOps Drm2dDisplay.new false false (0, 0) monitorMoved
    eventMeets_monitorMoved rfl (.inr ⟨rfl, rfl⟩) ?_ false).1 _ rfl ?_
  · intro res _ d hd
    cases hd
  · refine ⟨fun ans hans => ?_, by decide⟩
    rw [List.mem_singleton.mp hans]
    rfl

end KmsVideo

end Faceplate.Video
