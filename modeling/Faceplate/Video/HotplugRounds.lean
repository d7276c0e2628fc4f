import Mathlib.Data.List.ReduceOption
import Faceplate.Video.Hotplug
import Faceplate.Video.Stays

/-!
# The connectors of a hotplug

The loop of `drm_video_hotplug` over the connectors only adds displays. Each has a
connector and a CRTC of its own, and a connector is left without a display only if memory
or a property was missing or all CRTCs that it could use were taken. CRTCs of displays
whose connector is gone count as taken, since these are let go afterwards.
-/

namespace Faceplate.Video

open Announcements

namespace DrmVideo

variable {β : Type*} (video : DrmVideo β)

theorem findCrtcLoop_eq (enc : KmsEncoder) (j : ℕ) (crtcs : List ℕ) :
    video.findCrtcLoop enc j crtcs =
      (enc.possible crtcs j).find? fun p => !video.isCrtcInUse p.1 := by
  induction crtcs generalizing j with
  | nil => rfl
  | cons crtc crtcs ih =>
    rw [findCrtcLoop, KmsEncoder.possible, List.zipIdx_cons, List.filter_cons]
    dsimp only
    rw [ih, KmsEncoder.possible]
    cases enc.possibleCrtcs.getLsbD j with
    | false => rfl
    | true =>
      rw [if_pos rfl, List.find?_cons]
      cases hused : video.isCrtcInUse crtc with
      | false => rfl
      | true => rfl

theorem findEncoderLoop_eq (crtcs : List ℕ) (encoders : List (Option KmsEncoder)) :
    video.findEncoderLoop crtcs encoders =
      (encoders.reduceOption.flatMap (·.possible crtcs 0)).find?
        fun p => !video.isCrtcInUse p.1 := by
  induction encoders with
  | nil => rfl
  | cons enc encoders ih =>
    cases enc with
    | none => rw [findEncoderLoop, ih, List.reduceOption_cons_of_none]
    | some enc =>
      rw [findEncoderLoop, findCrtcLoop_eq, ih, List.reduceOption_cons_of_some,
        List.flatMap_cons, List.find?_append]
      cases (enc.possible crtcs 0).find? fun p => !video.isCrtcInUse p.1 with
      | none => rfl
      | some found => rfl

/-- The first candidate that no display uses is taken. -/
theorem modesetFindCrtc_eq (crtcs : List ℕ) (conn : KmsConnector) :
    video.modesetFindCrtc crtcs conn =
      (conn.candidates crtcs).find? fun p => !video.isCrtcInUse p.1 := by
  rw [modesetFindCrtc, KmsConnector.candidates, List.find?_append, ← findEncoderLoop_eq]
  cases conn.current with
  | none => rfl
  | some enc =>
    by_cases hzero : enc.crtcId = 0
    · simp [hzero]
    · cases hused : video.isCrtcInUse enc.crtcId with
      | true => simp [hzero, hused]
      | false => simp [hzero, hused]

end DrmVideo

/-- `bind_display` gets all that it needs beside a CRTC. -/
def BindAnswers.Works (ans : BindAnswers) (legacy : Bool) : Prop :=
  ans.made = true ∧ (legacy || ans.setup) = true

namespace KmsVideo

variable {β α : Type*} {v w : KmsVideo β} {data : β} {crtcs : List ℕ}

/-- Without memory, a display is not bound; else it is bound as in `DrmVideo`. -/
theorem video_bindDisplay (data : β) (crtcs : List ℕ) (id : ℕ) (conn : KmsConnector)
    {ans : BindAnswers} (hmade : ans.made = true) (v : KmsVideo β) :
    (v.bindDisplay data crtcs id conn ans).video =
      v.video.bindDisplay data ans.addr (conn.toConnector v.video.legacy crtcs ans) := by
  have hfind : (conn.toConnector v.video.legacy crtcs ans).crtcs.find?
      (!v.video.isCrtcInUse ·) = (v.video.modesetFindCrtc crtcs conn).map Prod.fst := by
    change ((conn.candidates crtcs).map Prod.fst).find? (!v.video.isCrtcInUse ·) = _
    rw [List.find?_map, DrmVideo.modesetFindCrtc_eq]
    rfl
  unfold bindDisplay DrmVideo.bindDisplay
  rw [hmade, hfind]
  cases hobj : (v.video.objs ans.addr).isSome with
  | true => rfl
  | false =>
    cases v.video.modesetFindCrtc crtcs conn with
    | none => rfl
    | some found =>
      have hok : (!(conn.toConnector v.video.legacy crtcs ans).ok) =
          (!v.video.legacy && !ans.setup) := Bool.not_or ..
      dsimp only [Option.map_some]
      rw [hok]
      by_cases hfail : (!v.video.legacy && !ans.setup) = true
      · rw [if_pos hfail, if_pos hfail]
        rfl
      · rw [if_neg hfail, if_neg hfail]
        rfl

/-- What `bind_display` does: nothing, where memory, a property or a free CRTC is missing,
or it adds a display on a candidate that is free. -/
theorem bindDisplay_cases (data : β) (crtcs : List ℕ) (id : ℕ) (conn : KmsConnector)
    (ans : BindAnswers) (v : KmsVideo β) :
    (v.bindDisplay data crtcs id conn ans = v ∧
      (ans.made = true → v.video.objs ans.addr = none →
        (v.video.legacy || ans.setup) = true →
          ∀ p ∈ conn.candidates crtcs, v.video.isCrtcInUse p.1 = true)) ∨
    ∃ p ∈ conn.candidates crtcs, ∃ disp : DrmDisplay β, disp.crtc = p.1 ∧
      ans.made = true ∧ v.video.objs ans.addr = none ∧ v.video.isCrtcInUse p.1 = false ∧
      v.bindDisplay data crtcs id conn ans = { v with
        video := { v.video with
          objs := Function.update v.video.objs ans.addr (some disp)
          displays := v.video.displays ++ [ans.addr] }
        plugs := Function.update v.plugs ans.addr ⟨id, p.2, true, false⟩ } := by
  rw [bindDisplay]
  by_cases hmade : (!ans.made || (v.video.objs ans.addr).isSome) = true
  · rw [if_pos hmade]
    refine .inl ⟨rfl, fun hmade' hobj => ?_⟩
    simp [hmade', hobj] at hmade
  rw [if_neg hmade]
  simp only [Bool.or_eq_true, Bool.not_eq_true', not_or, Bool.not_eq_false,
    Option.not_isSome_iff_eq_none] at hmade
  cases hfind : v.video.modesetFindCrtc crtcs conn with
  | none =>
    refine .inl ⟨rfl, fun _ _ _ p hp => ?_⟩
    rw [DrmVideo.modesetFindCrtc_eq] at hfind
    simpa using List.find?_eq_none.mp hfind p hp
  | some p =>
    rw [DrmVideo.modesetFindCrtc_eq] at hfind
    have hmem := List.mem_of_find?_eq_some hfind
    have hfree : v.video.isCrtcInUse p.1 = false := by simpa using List.find?_some hfind
    dsimp only
    by_cases hfail : (!v.video.legacy && !ans.setup) = true
    · rw [if_pos hfail]
      refine .inl ⟨rfl, fun _ _ hok => ?_⟩
      rw [← Bool.not_or, hok] at hfail
      cases hfail
    · rw [if_neg hfail]
      exact .inr ⟨p, hmem, _, rfl, hmade.1, hmade.2, hfree, rfl⟩

/-- The books are right, no two displays are on one connector, and the seat knows the
displays that are in use. -/
structure Linked (v : KmsVideo β) : Prop where
  books : v.video.books.Sound fun _ => 0
  connectors : ∀ d ∈ v.video.displays, ∀ e ∈ v.video.displays,
    (v.plugs d).connector = (v.plugs e).connector → d = e
  tells : Tells v.told (v.video.displays.filter fun d => (v.plugs d).inUse)

/-- A mark that changes neither connectors nor what the seat knows. -/
theorem Linked.mark (h : v.Linked) (d : ℕ) {f : Plug → Plug}
    (hf : ∀ plug, (f plug).connector = plug.connector ∧ (f plug).inUse = plug.inUse) :
    (v.mark d f).Linked := by
  have hplugs : ∀ e, ((v.mark d f).plugs e).connector = (v.plugs e).connector ∧
      ((v.mark d f).plugs e).inUse = (v.plugs e).inUse := by
    intro e
    by_cases he : e = d
    · rw [he, plugs_mark_self]
      exact hf _
    · rw [plugs_mark_of_ne v he]
      exact ⟨rfl, rfl⟩
  refine ⟨h.books, fun d hd e he heq => ?_, ?_⟩
  · rw [(hplugs d).1, (hplugs e).1] at heq
    exact h.connectors d hd e he heq
  · have hfilter : v.video.displays.filter (fun e => ((v.mark d f).plugs e).inUse) =
        v.video.displays.filter fun e => (v.plugs e).inUse :=
      List.filter_congr fun e _ => (hplugs e).2
    change Tells v.told (v.video.displays.filter fun e => ((v.mark d f).plugs e).inUse)
    rw [hfilter]
    exact h.tells

/-- A display in the list has memory. -/
theorem Linked.exists_obj (h : v.Linked) {d : ℕ} (hd : d ∈ v.video.displays) :
    ∃ disp, v.video.objs d = some disp :=
  (Stays.refl v.video).exists_of_mem h.books hd

/-- A new display on a connector that had none. -/
theorem Linked.bindDisplay (h : v.Linked) {id : ℕ} {conn : KmsConnector} {ans : BindAnswers}
    (hid : ∀ d ∈ v.video.displays, (v.plugs d).connector ≠ id) :
    (v.bindDisplay data crtcs id conn ans).Linked := by
  rcases bindDisplay_cases data crtcs id conn ans v with
    ⟨hsame, -⟩ | ⟨p, hp, disp, hcrtc, hmade, hobj, hfree, hbound⟩
  · rw [hsame]
    exact h
  have hvideo := video_bindDisplay data crtcs id conn hmade v
  have hne : ∀ d ∈ v.video.displays, d ≠ ans.addr := by
    rintro d hd rfl
    obtain ⟨disp, hsome⟩ := h.exists_obj hd
    rw [hobj] at hsome
    cases hsome
  have hold : ∀ d ∈ v.video.displays,
      (v.bindDisplay data crtcs id conn ans).plugs d = v.plugs d := by
    intro d hd
    rw [hbound]
    exact Function.update_of_ne (hne d hd) _ _
  have hnew : (v.bindDisplay data crtcs id conn ans).plugs ans.addr = ⟨id, p.2, true, false⟩ := by
    rw [hbound]
    exact Function.update_self ..
  have hdisplays : (v.bindDisplay data crtcs id conn ans).video.displays =
      v.video.displays ++ [ans.addr] := by
    rw [hbound]
  refine ⟨?_, ?_, ?_⟩
  · rw [hvideo]
    exact DrmVideo.sound_bindDisplay data ans.addr _ h.books
  · intro d hd e he heq
    rw [hdisplays, List.mem_append, List.mem_singleton] at hd he
    rcases hd with hd | rfl <;> rcases he with he | rfl
    · rw [hold d hd, hold e he] at heq
      exact h.connectors d hd e he heq
    · rw [hold d hd, hnew] at heq
      exact absurd heq (hid d hd)
    · rw [hold e he, hnew] at heq
      exact absurd heq.symm (hid e he)
    · rfl
  · have hfilter : (v.bindDisplay data crtcs id conn ans).video.displays.filter
        (fun d => ((v.bindDisplay data crtcs id conn ans).plugs d).inUse) =
          v.video.displays.filter fun d => (v.plugs d).inUse := by
      rw [hdisplays, List.filter_append, List.filter_cons, hnew, if_neg Bool.false_ne_true,
        List.filter_nil, List.append_nil]
      apply List.filter_congr
      intro d hd
      rw [hold d hd]
    have htold : (v.bindDisplay data crtcs id conn ans).told = v.told := by rw [hbound]
    rw [hfilter, htold]
    exact h.tells

/-- What one round does: nothing for a connector without a display, a mark for the display
on the connector, or a new display. -/
theorem hotplugRound_cases (data : β) (crtcs : List ℕ) (s : Bool × KmsVideo β)
    (ans : ConnectorAnswers) :
    (ans.plugged = false ∧ hotplugRound data crtcs s ans = s) ∨
    (ans.plugged = true ∧ ∃ d ∈ s.2.video.displays, (s.2.plugs d).connector = ans.id ∧
      hotplugRound data crtcs s ans =
        (s.1 || !s.2.isOnline d, s.2.mark d Plug.found)) ∨
    (ans.plugged = true ∧ (∀ d ∈ s.2.video.displays, (s.2.plugs d).connector ≠ ans.id) ∧
      ∃ conn, ans.conn = some conn ∧ hotplugRound data crtcs s ans =
        (true, s.2.bindDisplay data crtcs ans.id conn ans.bind)) := by
  rw [hotplugRound, ConnectorAnswers.plugged]
  cases ans.conn with
  | none => exact .inl ⟨rfl, rfl⟩
  | some conn =>
    have hplugged : (some conn).any (fun conn => conn.connected && !conn.modes.isEmpty) =
        !(!conn.connected || conn.modes.isEmpty) := by
      rw [Bool.not_or, Bool.not_not]
      rfl
    rw [hplugged]
    dsimp only
    by_cases hskip : (!conn.connected || conn.modes.isEmpty) = true
    · rw [if_pos hskip, hskip]
      exact .inl ⟨rfl, rfl⟩
    · rw [if_neg hskip, Bool.not_eq_true] at *
      rw [hskip]
      cases hfind : s.2.video.displays.find? fun d => (s.2.plugs d).connector == ans.id with
      | none =>
        refine .inr (.inr ⟨rfl, fun d hd heq => ?_, conn, rfl, rfl⟩)
        simpa [heq] using List.find?_eq_none.mp hfind d hd
      | some d =>
        exact .inr (.inl ⟨rfl, d, List.mem_of_find?_eq_some hfind,
          by simpa using List.find?_some hfind, rfl⟩)

theorem mem_pluggedIds_concat {asked : List ConnectorAnswers} {ans : ConnectorAnswers} {id : ℕ} :
    id ∈ pluggedIds (asked ++ [ans]) ↔
      id ∈ pluggedIds asked ∨ ans.plugged = true ∧ id = ans.id := by
  rw [pluggedIds, List.filter_append, List.map_append, List.mem_append]
  apply or_congr Iff.rfl
  cases hplugged : ans.plugged with
  | false => simp [hplugged]
  | true => simp [hplugged]

/-- What the loop over the connectors makes of a device, when those in `asked` were looked
at. Nothing is taken away yet, and the displays whose connector was found are marked. -/
structure Asked (start : KmsVideo β) (asked : List ConnectorAnswers) (s : Bool × KmsVideo β) :
    Prop where
  linked : s.2.Linked
  flags : s.2.hotplug = start.hotplug ∧ s.2.master = start.master ∧ s.2.vtTimer = start.vtTimer ∧
    s.2.told = start.told
  settings : s.2.video.legacy = start.video.legacy ∧ s.2.video.awake = start.video.awake ∧
    s.2.video.pending = start.video.pending
  displays : ∃ new, s.2.video.displays = start.video.displays ++ new
  objs : ∀ d ∈ start.video.displays, s.2.video.objs d = start.video.objs d
  plugs : ∀ d ∈ start.video.displays, (s.2.plugs d).connector = (start.plugs d).connector ∧
    (s.2.plugs d).inUse = (start.plugs d).inUse ∧
    ((s.2.plugs d).available = true ↔ (start.plugs d).connector ∈ pluggedIds asked)
  fresh : ∀ d ∈ s.2.video.displays, d ∉ start.video.displays →
    (s.2.plugs d).connector ∈ pluggedIds asked ∧ (s.2.plugs d).available = true ∧
    (s.2.plugs d).inUse = false
  online : s.1 = false → ∀ d ∈ s.2.video.displays, (s.2.plugs d).available = true →
    s.2.isOnline d = true

section Rounds

variable {start : KmsVideo β} {asked : List ConnectorAnswers} {s : Bool × KmsVideo β}
  {ans : ConnectorAnswers}

theorem Asked.mem (h : Asked start asked s) {d : ℕ} (hd : d ∈ start.video.displays) :
    d ∈ s.2.video.displays := by
  obtain ⟨new, hnew⟩ := h.displays
  rw [hnew]
  exact List.mem_append_left new hd

/-- A display on a connector that was found is marked. -/
theorem Asked.available (h : Asked start asked s) {d : ℕ} (hd : d ∈ s.2.video.displays)
    (hid : (s.2.plugs d).connector ∈ pluggedIds asked) : (s.2.plugs d).available = true := by
  by_cases hold : d ∈ start.video.displays
  · obtain ⟨hconnector, -, havail⟩ := h.plugs d hold
    rwa [havail, ← hconnector]
  · exact (h.fresh d hd hold).2.1

/-- No display belongs to the next connector. -/
theorem Asked.skipped (h : Asked start asked s) (hplugged : ans.plugged = false) :
    Asked start (asked ++ [ans]) s := by
  have hids : ∀ {id}, id ∈ pluggedIds (asked ++ [ans]) ↔ id ∈ pluggedIds asked := by
    intro id
    rw [mem_pluggedIds_concat, hplugged]
    simp
  refine ⟨h.linked, h.flags, h.settings, h.displays, h.objs, fun e he => ?_, fun e he hnew => ?_,
    h.online⟩
  · rw [hids]
    exact h.plugs e he
  · rw [hids]
    exact h.fresh e he hnew

/-- The display on the next connector is marked. -/
theorem Asked.marked (h : Asked start asked s) (hplugged : ans.plugged = true) {d : ℕ}
    (hd : d ∈ s.2.video.displays) (hid : (s.2.plugs d).connector = ans.id) :
    Asked start (asked ++ [ans]) (s.1 || !s.2.isOnline d, s.2.mark d Plug.found) := by
  have hother : ∀ e ∈ s.2.video.displays, e ≠ d → (s.2.plugs e).connector ≠ ans.id := by
    intro e he hne heq
    exact hne (h.linked.connectors e he d hd (heq.trans hid.symm))
  refine ⟨?_, h.flags, h.settings, h.displays, h.objs, fun e he => ?_, fun e he hnew => ?_,
    fun hneeds e he havail => ?_⟩
  · dsimp only
    apply h.linked.mark
    exact fun _ => ⟨rfl, rfl⟩
  · obtain ⟨hconnector, hinUse, havail⟩ := h.plugs e he
    rw [mem_pluggedIds_concat]
    by_cases heq : e = d
    · subst heq
      rw [plugs_mark_self]
      exact ⟨hconnector, hinUse, iff_of_true rfl (.inr ⟨hplugged, hconnector.symm.trans hid⟩)⟩
    · rw [plugs_mark_of_ne s.2 heq]
      refine ⟨hconnector, hinUse, havail.trans (or_iff_left ?_).symm⟩
      rintro ⟨-, hsame⟩
      exact hother e (h.mem he) heq (hconnector.trans hsame)
  · obtain ⟨hconnector, havail, hinUse⟩ := h.fresh e he hnew
    by_cases heq : e = d
    · subst heq
      rw [plugs_mark_self]
      exact ⟨mem_pluggedIds_concat.mpr (.inl hconnector), rfl, hinUse⟩
    · rw [plugs_mark_of_ne s.2 heq]
      exact ⟨mem_pluggedIds_concat.mpr (.inl hconnector), havail, hinUse⟩
  · obtain ⟨hbefore, honline⟩ := Bool.or_eq_false_iff.mp hneeds
    change s.2.isOnline e = true
    by_cases heq : e = d
    · subst heq
      simpa using honline
    · rw [plugs_mark_of_ne s.2 heq] at havail
      exact h.online hbefore e he havail

/-- The next connector has no display yet, and one is bound if that is possible. -/
theorem Asked.bound (h : Asked start asked s) (hplugged : ans.plugged = true)
    (hid : ∀ d ∈ s.2.video.displays, (s.2.plugs d).connector ≠ ans.id) (data : β)
    (crtcs : List ℕ) (conn : KmsConnector) :
    Asked start (asked ++ [ans]) (true, s.2.bindDisplay data crtcs ans.id conn ans.bind) := by
  have hlinked : (s.2.bindDisplay data crtcs ans.id conn ans.bind).Linked :=
    h.linked.bindDisplay hid
  have hother : ∀ {e}, e ∈ start.video.displays →
      ((start.plugs e).connector ∈ pluggedIds (asked ++ [ans]) ↔
        (start.plugs e).connector ∈ pluggedIds asked) := by
    intro e he
    rw [mem_pluggedIds_concat]
    apply or_iff_left
    rintro ⟨-, hsame⟩
    exact hid e (h.mem he) ((h.plugs e he).1.trans hsame)
  rcases bindDisplay_cases data crtcs ans.id conn ans.bind s.2 with
    ⟨hsame, -⟩ | ⟨p, hp, disp, hcrtc, hmade, hobj, hfree, hbound⟩
  · rw [hsame]
    refine ⟨h.linked, h.flags, h.settings, h.displays, h.objs, fun e he => ?_,
      fun e he hnew => ?_, fun hneeds => absurd hneeds.symm Bool.false_ne_true⟩
    · rw [hother he]
      exact h.plugs e he
    · obtain ⟨hconnector, hmarks⟩ := h.fresh e he hnew
      exact ⟨mem_pluggedIds_concat.mpr (.inl hconnector), hmarks⟩
  · have hne : ∀ {e}, e ∈ s.2.video.displays → e ≠ ans.bind.addr := by
      rintro e he rfl
      obtain ⟨disp, hsome⟩ := h.linked.exists_obj he
      rw [hobj] at hsome
      cases hsome
    rw [hbound] at hlinked ⊢
    refine ⟨hlinked, h.flags, h.settings, ?_, fun e he => ?_, fun e he => ?_,
      fun e he hnew => ?_, fun hneeds => absurd hneeds.symm Bool.false_ne_true⟩
    · obtain ⟨new, hnew⟩ := h.displays
      refine ⟨new ++ [ans.bind.addr], ?_⟩
      change s.2.video.displays ++ _ = _
      rw [hnew, List.append_assoc]
    · exact (Function.update_of_ne (hne (h.mem he)) _ _).trans (h.objs e he)
    · dsimp only
      rw [Function.update_of_ne (hne (h.mem he)), hother he]
      exact h.plugs e he
    · dsimp only at he ⊢
      rcases List.mem_append.mp he with he | he
      · rw [Function.update_of_ne (hne he)]
        obtain ⟨hconnector, hmarks⟩ := h.fresh e he hnew
        exact ⟨mem_pluggedIds_concat.mpr (.inl hconnector), hmarks⟩
      · rw [List.mem_singleton.mp he, Function.update_self]
        exact ⟨mem_pluggedIds_concat.mpr (.inr ⟨hplugged, rfl⟩), rfl, rfl⟩

theorem Asked.step (h : Asked start asked s) (data : β) (crtcs : List ℕ)
    (ans : ConnectorAnswers) :
    Asked start (asked ++ [ans]) (hotplugRound data crtcs s ans) := by
  rcases hotplugRound_cases data crtcs s ans with
    ⟨hplugged, hround⟩ | ⟨hplugged, d, hd, hid, hround⟩ | ⟨hplugged, hid, conn, -, hround⟩
  · rw [hround]
    exact h.skipped hplugged
  · rw [hround]
    exact h.marked hplugged hd hid
  · rw [hround]
    exact h.bound hplugged hid data crtcs conn

end Rounds

theorem rounds_concat (data : β) (crtcs : List ℕ) (modeset : Bool) (start : KmsVideo β)
    (asked : List ConnectorAnswers) (ans : ConnectorAnswers) :
    rounds data crtcs modeset start (asked ++ [ans]) =
      hotplugRound data crtcs (rounds data crtcs modeset start asked) ans := by
  rw [rounds, List.foldl_append]
  rfl

theorem asked_rounds {start : KmsVideo β} (hlinked : start.Linked)
    (havail : ∀ d ∈ start.video.displays, (start.plugs d).available = false) (data : β)
    (crtcs : List ℕ) (modeset : Bool) (asked : List ConnectorAnswers) :
    Asked start asked (rounds data crtcs modeset start asked) := by
  induction asked using List.reverseRecOn with
  | nil =>
    refine ⟨hlinked, ⟨rfl, rfl, rfl, rfl⟩, ⟨rfl, rfl, rfl⟩, ⟨[], (List.append_nil _).symm⟩,
      fun d hd => rfl, fun d hd => ⟨rfl, rfl, ?_⟩, fun d hd hnew => absurd hd hnew, ?_⟩
    · apply iff_of_false
      · change (start.plugs d).available ≠ true
        rw [havail d hd]
        exact Bool.false_ne_true
      · exact List.not_mem_nil
    · intro hneeds d hd h
      exact absurd ((havail d hd).symm.trans h) Bool.false_ne_true
  | append_singleton asked ans ih =>
    rw [rounds_concat]
    exact ih.step data crtcs ans

/-- A CRTC in use stays in use while displays are added. -/
theorem isCrtcInUse_hotplugRound {s : Bool × KmsVideo β} (data : β) (crtcs : List ℕ)
    (ans : ConnectorAnswers) {crtc : ℕ}
    (hused : s.2.video.isCrtcInUse crtc = true) :
    (hotplugRound data crtcs s ans).2.video.isCrtcInUse crtc = true := by
  rcases hotplugRound_cases data crtcs s ans with
    ⟨-, hround⟩ | ⟨-, d, -, -, hround⟩ | ⟨-, hid, conn, hconn, hround⟩
  · rw [hround]
    exact hused
  · rw [hround]
    exact hused
  · rw [hround]
    rcases bindDisplay_cases data crtcs ans.id conn ans.bind s.2 with
      ⟨hsame, -⟩ | ⟨p, hp, disp, hcrtc, hmade, hobj, hfree, hbound⟩
    · dsimp only
      rw [hsame]
      exact hused
    · dsimp only
      rw [hbound]
      obtain ⟨e, he, hany⟩ := List.any_eq_true.mp hused
      apply List.any_eq_true.mpr
      refine ⟨e, List.mem_append_left _ he, ?_⟩
      dsimp only
      rw [Function.update_of_ne]
      · exact hany
      · rintro rfl
        rw [hobj] at hany
        cases hany

/-- A display stays in the list and on its connector while displays are added. -/
theorem connector_hotplugRound {s : Bool × KmsVideo β} (h : s.2.Linked) (data : β)
    (crtcs : List ℕ) (ans : ConnectorAnswers) {d : ℕ} (hd : d ∈ s.2.video.displays) :
    d ∈ (hotplugRound data crtcs s ans).2.video.displays ∧
      ((hotplugRound data crtcs s ans).2.plugs d).connector = (s.2.plugs d).connector := by
  rcases hotplugRound_cases data crtcs s ans with
    ⟨-, hround⟩ | ⟨-, e, -, -, hround⟩ | ⟨-, hid, conn, hconn, hround⟩
  · rw [hround]
    exact ⟨hd, rfl⟩
  · rw [hround]
    refine ⟨hd, ?_⟩
    by_cases he : d = e
    · subst he
      rw [plugs_mark_self]
      rfl
    · rw [plugs_mark_of_ne s.2 he]
  · rw [hround]
    rcases bindDisplay_cases data crtcs ans.id conn ans.bind s.2 with
      ⟨hsame, -⟩ | ⟨p, hp, disp, hcrtc, hmade, hobj, hfree, hbound⟩
    · dsimp only
      rw [hsame]
      exact ⟨hd, rfl⟩
    · dsimp only
      rw [hbound]
      refine ⟨List.mem_append_left _ hd, ?_⟩
      dsimp only
      rw [Function.update_of_ne]
      rintro rfl
      obtain ⟨disp, hsome⟩ := h.exists_obj hd
      rw [hobj] at hsome
      cases hsome

/-- The memory for new displays is free, and no two displays get the same. -/
structure Roomy (start : KmsVideo β) (asked : List ConnectorAnswers) : Prop where
  free : ∀ ans ∈ asked, start.video.objs ans.bind.addr = none
  apart : (asked.map (·.bind.addr)).Nodup

theorem Roomy.objs {start : KmsVideo β} {asked : List ConnectorAnswers} {data : β}
    {crtcs : List ℕ} {modeset : Bool} {d : ℕ} (hd : d ∉ asked.map (·.bind.addr)) :
    (rounds data crtcs modeset start asked).2.video.objs d = start.video.objs d := by
  induction asked using List.reverseRecOn with
  | nil => rfl
  | append_singleton asked ans ih =>
    rw [List.map_append, List.mem_append, not_or] at hd
    obtain ⟨hbefore, hlast⟩ := hd
    rw [rounds_concat, ← ih hbefore]
    rcases hotplugRound_cases data crtcs (rounds data crtcs modeset start asked) ans with
      ⟨-, hround⟩ | ⟨-, e, -, -, hround⟩ | ⟨-, hid, conn, hconn, hround⟩
    · rw [hround]
    · rw [hround]
      rfl
    · rw [hround]
      rcases bindDisplay_cases data crtcs ans.id conn ans.bind
        (rounds data crtcs modeset start asked).2 with
        ⟨hsame, -⟩ | ⟨p, hp, disp, hcrtc, hmade, hobj, hfree, hbound⟩
      · dsimp only
        rw [hsame]
      · dsimp only
        rw [hbound]
        apply Function.update_of_ne
        rintro rfl
        exact hlast (by simp)

/-- Each connector that a display belongs to has one after the loop, unless something is
missing or all CRTCs that it can be put on are in use. -/
theorem shown_rounds {start : KmsVideo β} (hlinked : start.Linked)
    (havail : ∀ d ∈ start.video.displays, (start.plugs d).available = false) (data : β)
    (crtcs : List ℕ) (modeset : Bool) {asked : List ConnectorAnswers} (hroomy : Roomy start asked)
    {ans : ConnectorAnswers} (hans : ans ∈ asked) (hplugged : ans.plugged = true)
    {conn : KmsConnector} (hconn : ans.conn = some conn)
    (hworks : ans.bind.Works start.video.legacy) :
    (∃ d ∈ (rounds data crtcs modeset start asked).2.video.displays,
      ((rounds data crtcs modeset start asked).2.plugs d).connector = ans.id) ∨
    ∀ p ∈ conn.candidates crtcs,
      (rounds data crtcs modeset start asked).2.video.isCrtcInUse p.1 = true := by
  induction asked using List.reverseRecOn with
  | nil => cases hans
  | append_singleton asked last ih =>
    have hasked := asked_rounds hlinked havail data crtcs modeset asked
    have hbefore : Roomy start asked := by
      refine ⟨fun other hother => hroomy.free other (List.mem_append_left _ hother), ?_⟩
      have hapart := hroomy.apart
      rw [List.map_append, List.nodup_append] at hapart
      exact hapart.1
    have hobj : (rounds data crtcs modeset start asked).2.video.objs last.bind.addr = none := by
      rw [Roomy.objs]
      · exact hroomy.free last (by simp)
      · have hapart := hroomy.apart
        rw [List.map_append, List.nodup_append] at hapart
        exact fun hmem => hapart.2.2 _ hmem _ (by simp) rfl
    rw [rounds_concat]
    rcases List.mem_append.mp hans with hans | hans
    · -- the connector has been looked at before
      rcases ih hbefore hans with ⟨d, hd, hid⟩ | hused
      · obtain ⟨hmem, hsame⟩ := connector_hotplugRound hasked.linked data crtcs last hd
        exact .inl ⟨d, hmem, hsame.trans hid⟩
      · exact .inr fun p hp => isCrtcInUse_hotplugRound data crtcs last (hused p hp)
    · obtain rfl := List.mem_singleton.mp hans
      rcases hotplugRound_cases data crtcs (rounds data crtcs modeset start asked) ans with
        ⟨hnot, -⟩ | ⟨-, d, hd, hid, hround⟩ | ⟨-, hid, conn', hconn', hround⟩
      · exact absurd (hnot.symm.trans hplugged) Bool.false_ne_true
      · obtain ⟨hmem, hsame⟩ := connector_hotplugRound hasked.linked data crtcs ans hd
        exact .inl ⟨d, hmem, hsame.trans hid⟩
      · obtain rfl := Option.some.inj (hconn.symm.trans hconn')
        rw [hround]
        rcases bindDisplay_cases data crtcs ans.id conn ans.bind
          (rounds data crtcs modeset start asked).2 with
          ⟨hsame, hused⟩ | ⟨p, hp, disp, hcrtc, hmade, -, hfree, hbound⟩
        · refine .inr fun p hp => ?_
          dsimp only
          rw [hsame]
          apply hused hworks.1 hobj _ p hp
          rw [hasked.settings.1]
          exact hworks.2
        · refine .inl ⟨ans.bind.addr, ?_, ?_⟩
          · dsimp only
            rw [hbound]
            exact List.mem_append_right _ (List.mem_singleton_self _)
          · dsimp only
            rw [hbound]
            dsimp only
            rw [Function.update_self]

end KmsVideo

end Faceplate.Video
