import Faceplate.Lib.Runs
import Faceplate.Uterm.Monitor

/-!
# Runs of the device monitor

Each report concerns the node that it names and no other. What the monitor has for a node is
therefore what the reports about this node alone make of it, one after the other, in whatever
order the reports about other nodes come between them. The user is told of each device when
it comes and when it goes, and never twice.
-/

namespace Faceplate.Uterm

open CString Announcements

namespace Monitor

variable {σ : Type*}

/-- The devices but their data. -/
def tags (mon : Monitor σ) : List MonitorTag := mon.devices.map monitorTag

/-- What the monitor has for a node: the type and the flags. -/
def known (mon : Monitor σ) (node : List UInt8) : Option (MonitorDevType × MonitorFlags) :=
  (mon.tags.find? (·.2.1 = node)).map (·.2.2)

/-- The devices have different addresses and nodes, and the user was told of them. -/
structure Orderly (mon : Monitor σ) : Prop where
  addrs : (mon.tags.map Prod.fst).Nodup
  nodes : (mon.tags.map (·.2.1)).Nodup
  told : Tells mon.told mon.tags

theorem orderly_new (user : σ) : (new user : Monitor σ).Orderly :=
  ⟨List.nodup_nil, List.nodup_nil, tells_nil⟩

/-! ### Callbacks -/

theorem map_monitorTag_withData (set : ℕ × Option ℕ) (devices : List (ℕ × MonitorDev)) :
    (withData set devices).map monitorTag = devices.map monitorTag := by
  rw [withData, Entries.modify, List.map_map]
  apply List.map_congr_left
  intro d hd
  rw [Function.comp_apply]
  split_ifs <;> rfl

@[simp] theorem tags_setDevData (mon : Monitor σ) (set : ℕ × Option ℕ) :
    (mon.setDevData set).tags = mon.tags := by
  unfold setDevData
  split_ifs
  · rfl
  · exact map_monitorTag_withData _ _
  · rfl

@[simp] theorem told_setDevData (mon : Monitor σ) (set : ℕ × Option ℕ) :
    (mon.setDevData set).told = mon.told := by
  unfold setDevData
  split_ifs <;> rfl

/-- A callback leaves the devices and what was told alone. -/
theorem called_spec (mon : Monitor σ) (result : σ × List (ℕ × Option ℕ)) :
    (mon.called result).tags = mon.tags ∧ (mon.called result).told = mon.told := by
  have hsets : ∀ (sets : List (ℕ × Option ℕ)) (mon : Monitor σ),
      (sets.foldl setDevData mon).tags = mon.tags ∧
        (sets.foldl setDevData mon).told = mon.told := by
    intro sets
    induction sets with
    | nil => exact fun mon => ⟨rfl, rfl⟩
    | cons set sets ih =>
      intro mon
      obtain ⟨htags, htold⟩ := ih (mon.setDevData set)
      exact ⟨htags.trans (tags_setDevData mon set), htold.trans (told_setDevData mon set)⟩
  exact hsets result.2 { mon with user := result.1 }

@[simp] theorem tags_called (mon : Monitor σ) (result : σ × List (ℕ × Option ℕ)) :
    (mon.called result).tags = mon.tags := (called_spec mon result).1

@[simp] theorem told_called (mon : Monitor σ) (result : σ × List (ℕ × Option ℕ)) :
    (mon.called result).told = mon.told := (called_spec mon result).2

theorem Orderly.of_eq {mon mon' : Monitor σ} (h : mon.Orderly) (htags : mon'.tags = mon.tags)
    (htold : mon'.told = mon.told) : mon'.Orderly :=
  ⟨htags ▸ h.addrs, htags ▸ h.nodes, htags ▸ htold ▸ h.told⟩

theorem known_of_tags {mon mon' : Monitor σ} (htags : mon'.tags = mon.tags)
    (node : List UInt8) : mon'.known node = mon.known node := by
  rw [known, known, htags]

/-- Data that is set one after the other. -/
def setAll (sets : List (ℕ × Option ℕ)) (devices : List (ℕ × MonitorDev)) :
    List (ℕ × MonitorDev) := sets.foldl (fun devices set => withData set devices) devices

@[simp] theorem keys_setAll (sets : List (ℕ × Option ℕ)) (devices : List (ℕ × MonitorDev)) :
    (setAll sets devices).map Prod.fst = devices.map Prod.fst := by
  induction sets generalizing devices with
  | nil => rfl
  | cons set sets ih => exact (ih _).trans Entries.keys_modify

theorem setAll_concat (sets : List (ℕ × Option ℕ)) (set : ℕ × Option ℕ)
    (devices : List (ℕ × MonitorDev)) :
    setAll (sets ++ [set]) devices = withData set (setAll sets devices) := by
  rw [setAll, List.foldl_append]
  rfl

/-- A callback that sets data of devices which are there, or which the monitor is about to
free. -/
theorem called_eq {mon : Monitor σ} {result : σ × List (ℕ × Option ℕ)}
    (hfreeing : ∀ a, mon.freeing = some a → a ∉ mon.devices.map Prod.fst)
    (hsets : ∀ set ∈ result.2, mon.freeing = some set.1 ∨ set.1 ∈ mon.devices.map Prod.fst) :
    mon.called result =
      { mon with user := result.1, devices := setAll result.2 mon.devices } := by
  obtain ⟨user, sets⟩ := result
  have hloop : ∀ (sets : List (ℕ × Option ℕ)) (mon : Monitor σ),
      (∀ a, mon.freeing = some a → a ∉ mon.devices.map Prod.fst) →
      (∀ set ∈ sets, mon.freeing = some set.1 ∨ set.1 ∈ mon.devices.map Prod.fst) →
      sets.foldl setDevData mon = { mon with devices := setAll sets mon.devices } := by
    intro sets
    induction sets with
    | nil => exact fun _ _ _ => rfl
    | cons set sets ih =>
      intro mon hfreeing hsets
      obtain ⟨hset, hrest⟩ := List.forall_mem_cons.mp hsets
      have hone : mon.setDevData set = { mon with devices := withData set mon.devices } := by
        unfold setDevData
        split_ifs with hgoing hthere
        · rw [withData, Entries.modify_of_notMem (hfreeing _ hgoing)]
        · rfl
        · exact absurd hset (not_or.mpr ⟨hgoing, hthere⟩)
      have hkeys : (withData set mon.devices).map Prod.fst = mon.devices.map Prod.fst :=
        Entries.keys_modify
      rw [List.foldl_cons, hone, ih]
      · rfl
      · exact fun a ha => by rw [hkeys]; exact hfreeing a ha
      · exact fun next hnext => by rw [hkeys]; exact hrest next hnext
  exact hloop sets { mon with user := user } hfreeing hsets

/-! ### Devices that come and go -/

theorem known_eq_none {mon : Monitor σ} {node : List UInt8} :
    mon.known node = none ↔ node ∉ mon.tags.map (·.2.1) := by
  rw [known, Option.map_eq_none_iff, List.find?_eq_none]
  simp only [decide_eq_true_eq, List.mem_map, not_exists, not_and]

theorem findNode_isSome (mon : Monitor σ) (node : List UInt8) :
    (mon.findNode node).isSome = (mon.known node).isSome := by
  rw [findNode, known, tags, List.find?_map, Option.isSome_map, Option.isSome_map]
  rfl

section Devices

variable (malloc : Malloc) (cb : MonitorCb σ) (seatName : List UInt8) {mon : Monitor σ}

theorem monNewDev_spec (type : MonitorDevType) (flags : MonitorFlags) (node : List UInt8)
    (strdup : Bool) (h : mon.Orderly) (hnew : mon.known node = none) :
    (mon.monNewDev malloc cb type flags node strdup).Orderly ∧
      (malloc.Succeeds → ∀ n, (mon.monNewDev malloc cb type flags node strdup).known n =
        if n = node ∧ strdup = true then some (type, flags) else mon.known n) := by
  unfold monNewDev
  cases haddr : malloc.addr (mon.devices.map Prod.fst) with
  | none =>
    refine ⟨h, fun hmalloc => ?_⟩
    obtain ⟨a, ha⟩ := hmalloc (mon.devices.map Prod.fst)
    rw [haddr] at ha
    cases ha
  | some a =>
    cases strdup with
    | false => exact ⟨h, fun _ n => (if_neg (by simp)).symm⟩
    | true =>
      have hfresh : a ∉ mon.tags.map Prod.fst := by
        rw [tags, List.map_map]
        exact malloc.addr_notMem haddr
      have htags : ∀ told, ({ mon with
          devices := (a, ⟨type, flags, node, none⟩) :: mon.devices, told := told } :
            Monitor σ).tags = (a, node, type, flags) :: mon.tags := fun _ => rfl
      simp only [Bool.not_true, Bool.false_eq_true, if_false]
      refine ⟨Orderly.of_eq ⟨?_, ?_, ?_⟩ (tags_called _ _) (told_called _ _), fun _ n => ?_⟩
      · rw [htags, List.map_cons]
        exact List.nodup_cons.mpr ⟨hfresh, h.addrs⟩
      · rw [htags, List.map_cons]
        exact List.nodup_cons.mpr ⟨known_eq_none.mp hnew, h.nodes⟩
      · rw [htags]
        refine h.told.added fun hmem => hfresh ?_
        exact List.mem_map_of_mem (f := Prod.fst) hmem
      · rw [known_of_tags (tags_called _ _), known, htags, List.find?_cons]
        by_cases hn : n = node
        · simp [hn]
        · have hne : (decide (node = n)) = false := by simp [Ne.symm hn]
          simp [hne, hn, known]

theorem monitorFindDev_some {dev : UdevDevice} {d : ℕ × MonitorDev}
    (h : mon.monitorFindDev dev = some d) : d ∈ mon.devices ∧ dev.devnode = some d.2.node := by
  obtain ⟨node, hnode, hfind⟩ := Option.bind_eq_some_iff.mp h
  have hd : d.2.node = node := by simpa using List.find?_some hfind
  exact ⟨List.mem_of_find?_eq_some hfind, hd ▸ hnode⟩

theorem monitorFindDev_none {dev : UdevDevice} {n : List UInt8}
    (h : mon.monitorFindDev dev = none) (hn : dev.devnode = some n) : mon.known n = none := by
  rw [monitorFindDev, hn, Option.bind_some] at h
  have hsome := findNode_isSome mon n
  rw [h] at hsome
  simpa using hsome.symm

theorem known_isSome_of_mem {d : ℕ × MonitorDev} (hd : d ∈ mon.devices) :
    (mon.known d.2.node).isSome = true := by
  rw [← findNode_isSome, findNode, List.find?_isSome]
  exact ⟨d, hd, by simp⟩

/-- What is known of a node is what the device of this node is. -/
theorem known_eq_some (h : mon.Orderly) {node : List UInt8} {type : MonitorDevType}
    {flags : MonitorFlags} : mon.known node = some (type, flags) ↔
      ∃ d ∈ mon.devices, d.2.node = node ∧ d.2.type = type ∧ d.2.flags = flags := by
  constructor
  · intro hknown
    obtain ⟨tag, hfind, htag⟩ := Option.map_eq_some_iff.mp hknown
    obtain ⟨d, hd, rfl⟩ := List.mem_map.mp (List.mem_of_find?_eq_some hfind)
    have hnode : (monitorTag d).2.1 = node := by simpa using List.find?_some hfind
    exact ⟨d, hd, hnode, congrArg Prod.fst htag, congrArg Prod.snd htag⟩
  · rintro ⟨d, hd, rfl, rfl, rfl⟩
    obtain ⟨found, hfound⟩ := Option.isSome_iff_exists.mp (known_isSome_of_mem hd)
    obtain ⟨tag, hfind, -⟩ := Option.map_eq_some_iff.mp hfound
    have hnode : tag.2.1 = d.2.node := by simpa using List.find?_some hfind
    have hsame : tag = monitorTag d := List.inj_on_of_nodup_map h.nodes
      (List.mem_of_find?_eq_some hfind) (List.mem_map_of_mem hd) hnode
    rw [known, hfind, hsame]
    rfl

/-- Taking a device out of the list takes out its tag. -/
theorem tags_erase {d : ℕ × MonitorDev} (hd : d ∈ mon.devices) :
    ∃ before after, mon.tags = before ++ monitorTag d :: after ∧
      (mon.devices.erase d).map monitorTag = before ++ after := by
  obtain ⟨before, after, -, hsplit, herase⟩ := List.exists_erase_eq hd
  refine ⟨before.map monitorTag, after.map monitorTag, ?_, ?_⟩
  · rw [tags, hsplit, List.map_append, List.map_cons]
  · rw [herase, List.map_append]

theorem monFreeDev_spec (h : mon.Orderly) {d : ℕ × MonitorDev} (hd : d ∈ mon.devices) :
    (mon.monFreeDev cb d).Orderly ∧
      ∀ n, (mon.monFreeDev cb d).known n = if n = d.2.node then none else mon.known n := by
  obtain ⟨before, after, hsplit, herase⟩ := tags_erase hd
  have htags : (mon.monFreeDev cb d).tags = before ++ after :=
    (tags_called _ _).trans herase
  have htold : (mon.monFreeDev cb d).told = mon.told ++ [.removed (monitorTag d)] :=
    told_called _ _
  have hsub : (before ++ after).Sublist mon.tags := by
    rw [hsplit]
    exact (List.sublist_cons_self _ _).append_left before
  constructor
  · refine ⟨?_, ?_, ?_⟩
    · rw [htags]
      exact h.addrs.sublist (hsub.map Prod.fst)
    · rw [htags]
      exact h.nodes.sublist (hsub.map _)
    · rw [htags, htold]
      exact Tells.removed_middle (hsplit ▸ h.told)
  · intro n
    have hnodes := h.nodes
    rw [hsplit, List.map_append, List.map_cons, List.nodup_middle] at hnodes
    rw [← List.map_append] at hnodes
    split_ifs with hn
    · rw [known_eq_none, htags, hn]
      exact (List.nodup_cons.mp hnodes).1
    · have hne : ¬ (monitorTag d).2.1 = n := fun heq => hn heq.symm
      simp [known, htags, hsplit, List.find?_append, hne]

/-! ### Reports -/

/-- What a device that is added becomes, if it belongs to the seat. -/
def admitted (seatName : List UInt8) (report : Report) : Option (MonitorDevType × MonitorFlags) :=
  if report.dev.syspath.isNone ∨ report.probe.strdup = false then none
  else
    match classify report.dev report.probe with
    | none => none
    | some (sname, type, flags) => if seatOf sname = seatName then some (type, flags) else none

/-- What a report about a node makes of what was known of it. -/
def nodeStep (seatName : List UInt8) (known : Option (MonitorDevType × MonitorFlags))
    (report : Report) : Option (MonitorDevType × MonitorFlags) :=
  if report.action = some (lit "add") then known.or (admitted seatName report)
  else if report.action = some (lit "remove") then none
  else if report.action = some (lit "change") then
    if known.isSome ∧ seatOf report.dev.idSeat = seatName then known
    else admitted seatName report
  else known

/-- The report is about this node. -/
def Report.About (node : List UInt8) (report : Report) : Prop := report.dev.devnode = some node

instance (node : List UInt8) : DecidablePred (Report.About node) :=
  fun report => inferInstanceAs (Decidable (report.dev.devnode = some node))

theorem monitorUdevAdd_spec (report : Report) (h : mon.Orderly) :
    (mon.monitorUdevAdd malloc cb seatName report.dev report.probe).Orderly ∧
      (malloc.Succeeds → ∀ n,
        (mon.monitorUdevAdd malloc cb seatName report.dev report.probe).known n =
          if report.About n then (mon.known n).or (admitted seatName report)
          else mon.known n) := by
  obtain ⟨action, dev, probe⟩ := report
  have hstays : ∀ n, (dev.devnode = some n → mon.known n = none →
      admitted seatName ⟨action, dev, probe⟩ = none) →
      mon.known n = if Report.About n ⟨action, dev, probe⟩ then
        (mon.known n).or (admitted seatName ⟨action, dev, probe⟩) else mon.known n := by
    intro n hn
    split_ifs with habout
    · cases hk : mon.known n with
      | none => exact (hn habout hk).symm
      | some k => rfl
    · rfl
  unfold monitorUdevAdd
  split_ifs with hpath hfound
  · exact ⟨h, fun _ n => hstays n fun _ _ => by simp [admitted, hpath]⟩
  · refine ⟨h, fun _ n => hstays n fun hnode hk => ?_⟩
    obtain ⟨d, hd⟩ := Option.isSome_iff_exists.mp hfound
    obtain ⟨hmem, hdnode⟩ := monitorFindDev_some hd
    have hsome := known_isSome_of_mem hmem
    rw [show d.2.node = n by simpa [hnode] using hdnode.symm, hk] at hsome
    cases hsome
  · cases hnode : dev.devnode with
    | none => exact ⟨h, fun _ n => hstays n fun hn => by rw [hnode] at hn; cases hn⟩
    | some node =>
      have hnew : mon.known node = none :=
        monitorFindDev_none (by simpa using hfound) hnode
      cases hclass : classify dev probe with
      | none => exact ⟨h, fun _ n => hstays n fun _ _ => by simp [admitted, hclass]⟩
      | some made =>
        obtain ⟨sname, type, flags⟩ := made
        dsimp only
        split_ifs with hseat
        · exact ⟨h, fun _ n => hstays n fun _ _ => by simp [admitted, hclass, hseat]⟩
        · obtain ⟨horderly, hknown⟩ :=
            monNewDev_spec malloc cb type flags node probe.strdup h hnew
          refine ⟨horderly, fun hmalloc n => ?_⟩
          rw [hknown hmalloc n]
          by_cases hn : n = node
          · subst hn
            have hseat : seatOf sname = seatName := not_not.mp hseat
            cases hdup : probe.strdup <;>
              simp [Report.About, hnode, hnew, admitted, hclass, hseat, hpath, hdup]
          · simp [Report.About, hnode, hn, Ne.symm hn]

theorem monitorUdevRemove_spec (report : Report) (h : mon.Orderly) :
    (mon.monitorUdevRemove cb report.dev).Orderly ∧
      ∀ n, (mon.monitorUdevRemove cb report.dev).known n =
        if report.About n then none else mon.known n := by
  unfold monitorUdevRemove
  cases hfind : mon.monitorFindDev report.dev with
  | none =>
    refine ⟨h, fun n => ?_⟩
    split_ifs with habout
    · exact monitorFindDev_none hfind habout
    · rfl
  | some d =>
    obtain ⟨hd, hnode⟩ := monitorFindDev_some hfind
    obtain ⟨horderly, hknown⟩ := monFreeDev_spec cb h hd
    refine ⟨horderly, fun n => ?_⟩
    rw [hknown n]
    have habout : report.About n ↔ n = d.2.node := by
      rw [Report.About, hnode, Option.some.injEq, eq_comm]
    exact if_congr habout.symm rfl rfl

theorem monitorUdevChange_spec (report : Report) (h : mon.Orderly) :
    (mon.monitorUdevChange malloc cb seatName report.dev report.probe).Orderly ∧
      (malloc.Succeeds → ∀ n,
        (mon.monitorUdevChange malloc cb seatName report.dev report.probe).known n =
          if report.About n then
            if (mon.known n).isSome ∧ seatOf report.dev.idSeat = seatName then mon.known n
            else admitted seatName report
          else mon.known n) := by
  unfold monitorUdevChange
  cases hfind : mon.monitorFindDev report.dev with
  | none =>
    obtain ⟨horderly, hknown⟩ := monitorUdevAdd_spec malloc cb seatName report h
    refine ⟨horderly, fun hmalloc n => ?_⟩
    rw [hknown hmalloc n]
    split_ifs with habout hstays
    · rw [monitorFindDev_none hfind habout] at hstays
      cases hstays.1
    · rw [monitorFindDev_none hfind habout, Option.none_or]
    · rfl
  | some d =>
    obtain ⟨hd, hnode⟩ := monitorFindDev_some hfind
    have hsome : ∀ n, report.About n → (mon.known n).isSome = true := by
      intro n habout
      rw [show n = d.2.node by simpa [Report.About, hnode] using habout.symm]
      exact known_isSome_of_mem hd
    dsimp only
    split_ifs with hmoved hplug
    · -- it has left the seat, as far as its own property goes
      obtain ⟨hfreed, hgone⟩ := monFreeDev_spec cb h hd
      obtain ⟨horderly, hknown⟩ := monitorUdevAdd_spec malloc cb seatName report hfreed
      refine ⟨horderly, fun hmalloc n => ?_⟩
      rw [hknown hmalloc n, hgone n]
      by_cases habout : report.About n
      · have hn : n = d.2.node := by simpa [Report.About, hnode] using habout.symm
        rw [if_pos habout, if_pos habout, if_pos hn, Option.none_or, if_neg fun hc => hmoved hc.2]
      · have hn : n ≠ d.2.node := fun heq => habout (heq ▸ hnode)
        rw [if_neg habout, if_neg habout, if_neg hn]
    · have hstays := not_not.mp hmoved
      refine ⟨h.of_eq (tags_called _ _) (told_called _ _), fun _ n => ?_⟩
      rw [known_of_tags (tags_called _ _)]
      split_ifs with habout hknown
      · rfl
      · exact absurd ⟨hsome n habout, hstays⟩ hknown
      · rfl
    · have hstays := not_not.mp hmoved
      refine ⟨h, fun _ n => ?_⟩
      split_ifs with habout hknown
      · rfl
      · exact absurd ⟨hsome n habout, hstays⟩ hknown
      · rfl

/-- One report: only the node that it is about is concerned. -/
theorem receive_spec (report : Report) (h : mon.Orderly) :
    (mon.receive malloc cb seatName report).Orderly ∧
      (malloc.Succeeds → ∀ n, (mon.receive malloc cb seatName report).known n =
        if report.About n then nodeStep seatName (mon.known n) report else mon.known n) := by
  unfold receive nodeStep
  split_ifs with hadd hremove hchange
  · exact monitorUdevAdd_spec malloc cb seatName report h
  · obtain ⟨horderly, hknown⟩ := monitorUdevRemove_spec cb report h
    exact ⟨horderly, fun _ => hknown⟩
  · exact monitorUdevChange_spec malloc cb seatName report h
  · exact ⟨h, fun _ n => (ite_self _).symm⟩

/-- The invariant rule for the user of a monitor: what is kept when a device of a node comes
that was not there, when one of the devices goes, and when one of them is reported to have
changed, is kept by every report. -/
theorem receive_invariant {J : Monitor σ → Prop}
    (hnew : ∀ mon type flags node strdup, J mon → mon.known node = none →
      J (mon.monNewDev malloc cb type flags node strdup))
    (hfree : ∀ mon d, J mon → d ∈ mon.devices → J (mon.monFreeDev cb d))
    (hplug : ∀ mon d, J mon → d ∈ mon.devices →
      J (mon.called (cb.hotplugDev d.2.type d.2.data mon.user)))
    (report : Report) (h : J mon) : J (mon.receive malloc cb seatName report) := by
  have hadd : ∀ mon, J mon → J (mon.monitorUdevAdd malloc cb seatName report.dev report.probe) := by
    intro mon h
    unfold monitorUdevAdd
    split_ifs with hpath hfound
    · exact h
    · exact h
    · cases hnode : report.dev.devnode with
      | none => exact h
      | some node =>
        have hunknown : mon.known node = none :=
          monitorFindDev_none (by simpa using hfound) hnode
        cases classify report.dev report.probe with
        | none => exact h
        | some made =>
          dsimp only
          split_ifs
          · exact h
          · exact hnew mon _ _ _ _ h hunknown
  unfold receive
  split_ifs
  · exact hadd mon h
  · unfold monitorUdevRemove
    cases hfind : mon.monitorFindDev report.dev with
    | none => exact h
    | some d => exact hfree mon d h (monitorFindDev_some hfind).1
  · unfold monitorUdevChange
    cases hfind : mon.monitorFindDev report.dev with
    | none => exact hadd mon h
    | some d =>
      have hd := (monitorFindDev_some hfind).1
      dsimp only
      split_ifs
      · exact hadd _ (hfree mon d h hd)
      · exact hplug mon d h hd
      · exact h
  · exact h

end Devices

/-! ### Runs -/

/-- What happens to a monitor: a scan, an event of its descriptor, and what the user does
between the calls, by its new state and the data that it sets. -/
inductive MonitorEvent (σ : Type*) where
  | scan (found : List (UdevDevice × Probe))
  | udev (closed : Bool) (queue : List Report)
  | act (result : σ × List (ℕ × Option ℕ))

/-- The reports of an event; what a scan finds counts as added. -/
def MonitorEvent.reports : MonitorEvent σ → List Report
  | .scan found => found.map fun f => ⟨some (lit "add"), f.1, f.2⟩
  | .udev closed queue => if closed then [] else queue
  | .act _ => []

section Runs

variable (malloc : Malloc) (cb : MonitorCb σ) (seatName : List UInt8)

/-- One event. -/
def step (mon : Monitor σ) : MonitorEvent σ → Monitor σ
  | .scan found => mon.utermMonitorScan malloc cb seatName found
  | .udev closed queue => mon.monitorUdevEvent malloc cb seatName closed queue
  | .act result => mon.called result

variable {mon : Monitor σ}

theorem receives_spec (reports : List Report) (h : mon.Orderly) :
    (Runs.run (receive malloc cb seatName) mon reports).Orderly ∧
      (malloc.Succeeds → ∀ n, (Runs.run (receive malloc cb seatName) mon reports).known n =
        Runs.run (nodeStep seatName) (mon.known n)
          (reports.filter fun report => report.About n)) := by
  constructor
  · exact Runs.invariant_run (J := Orderly)
      (fun mon report h => (receive_spec malloc cb seatName report h).1) h reports
  · intro hmalloc n
    apply Runs.view_run (J := Orderly) (fun mon => mon.known n) ?_ ?_ h
    · exact fun mon report h => (receive_spec malloc cb seatName report h).1
    · intro mon report h
      rw [(receive_spec malloc cb seatName report h).2 hmalloc n]
      simp

theorem step_eq (mon : Monitor σ) (e : MonitorEvent σ) : mon.step malloc cb seatName e =
    match e with
    | .act result => mon.called result
    | e => Runs.run (receive malloc cb seatName) mon e.reports := by
  cases e with
  | scan found =>
    have hfold : ∀ (found : List (UdevDevice × Probe)) (mon : Monitor σ),
        mon.utermMonitorScan malloc cb seatName found =
          Runs.run (receive malloc cb seatName) mon (MonitorEvent.scan (σ := σ) found).reports := by
      intro found
      induction found with
      | nil => exact fun _ => rfl
      | cons f found ih => exact fun mon => ih _
    exact hfold found mon
  | udev closed queue => cases closed <;> rfl
  | act result => rfl

/-- The reports of a run about one node. -/
def reportsAbout (node : List UInt8) (es : List (MonitorEvent σ)) : List Report :=
  (es.flatMap MonitorEvent.reports).filter fun report => report.About node

theorem run_spec (es : List (MonitorEvent σ)) (h : mon.Orderly) :
    (Runs.run (step malloc cb seatName) mon es).Orderly ∧
      (malloc.Succeeds → ∀ n, (Runs.run (step malloc cb seatName) mon es).known n =
        Runs.run (nodeStep seatName) (mon.known n) (reportsAbout n es)) := by
  induction es generalizing mon with
  | nil => exact ⟨h, fun _ _ => rfl⟩
  | cons e es ih =>
    have hstep : (mon.step malloc cb seatName e).Orderly ∧
        (malloc.Succeeds → ∀ n, (mon.step malloc cb seatName e).known n =
          Runs.run (nodeStep seatName) (mon.known n) (reportsAbout n [e])) := by
      cases e with
      | act result => exact ⟨h.of_eq (tags_called _ _) (told_called _ _), fun _ n =>
          known_of_tags (tags_called _ _) n⟩
      | scan found =>
        simpa only [step_eq, reportsAbout, List.flatMap_singleton] using
          receives_spec malloc cb seatName _ h
      | udev closed queue =>
        simpa only [step_eq, reportsAbout, List.flatMap_singleton] using
          receives_spec malloc cb seatName _ h
    obtain ⟨horderly, hknown⟩ := hstep
    obtain ⟨hlast, hall⟩ := ih horderly
    refine ⟨hlast, fun hmalloc n => ?_⟩
    rw [Runs.run_cons, hall hmalloc n, hknown hmalloc n, ← Runs.run_append]
    simp [reportsAbout]

/-- The devices that are still there go, one after the other. -/
theorem unref_spec (h : mon.Orderly) :
    (mon.utermMonitorUnref cb).Orderly ∧ (mon.utermMonitorUnref cb).tags = [] := by
  have hloop : ∀ (addrs : List ℕ) (mon : Monitor σ), mon.Orderly →
      mon.devices.map Prod.fst = addrs →
      (addrs.foldl (unrefRound cb) mon).Orderly ∧ (addrs.foldl (unrefRound cb) mon).tags = [] := by
    intro addrs
    induction addrs with
    | nil => exact fun mon h hnone => ⟨h, by rw [List.foldl_nil, tags, List.map_eq_nil_iff.mp hnone,
        List.map_nil]⟩
    | cons a addrs ih =>
      intro mon h haddrs
      obtain ⟨d, rest, hdevices, rfl, hrest⟩ := List.map_eq_cons_iff.mp haddrs
      have hround : mon.unrefRound cb d.1 = mon.monFreeDev cb d := by
        simp [unrefRound, Entries.lookup, hdevices]
      have hd : d ∈ mon.devices := by simp [hdevices]
      have hfreed : (mon.monFreeDev cb d).devices.map Prod.fst = addrs := by
        have htags : (mon.monFreeDev cb d).tags = (mon.devices.erase d).map monitorTag :=
          tags_called _ _
        have hfst := congrArg (List.map Prod.fst) htags
        rw [hdevices, List.erase_cons_head, tags, List.map_map, List.map_map] at hfst
        exact hfst.trans hrest
      rw [List.foldl_cons, hround]
      exact ih _ (monFreeDev_spec cb h hd).1 hfreed
  exact hloop _ mon h rfl

/-- After any run the monitor has different nodes, and for each of them what the reports about
it alone make of it. What the user was told fits this, and when the monitor is given up it has
been told of each device once that it came and once that it went. -/
theorem follows_run (hmalloc : malloc.Succeeds) (user : σ) (es : List (MonitorEvent σ)) :
    let mon := Runs.run (step malloc cb seatName) (new user) es
    (mon.devices.map (·.2.node)).Nodup ∧ Tells mon.told mon.tags ∧
      (∀ node, mon.known node = Runs.run (nodeStep seatName) none (reportsAbout node es)) ∧
      heard (mon.utermMonitorUnref cb).told = some [] := by
  intro mon
  obtain ⟨horderly, hknown⟩ := run_spec malloc cb seatName es (orderly_new user)
  refine ⟨?_, horderly.told, fun node => hknown hmalloc node, ?_⟩
  · have hnodes := horderly.nodes
    rwa [tags, List.map_map] at hnodes
  · obtain ⟨hgone, hnone⟩ := unref_spec cb horderly
    obtain ⟨known, hheard, hperm⟩ := hgone.told
    rw [hnone] at hperm
    rw [hheard, List.Perm.eq_nil hperm]

end Runs

section Example

/-- A graphics card. -/
def card (seat : Option String) : UdevDevice where
  syspath := some (lit "/sys/devices/pci/card0")
  devnode := some (lit "/dev/dri/card0")
  subsystem := some (lit "drm")
  sysname := some (lit "card0")
  idSeat := seat.map lit
  hotplug := none
  inputParent := none
  bootVga := some (lit "1")

/-- A keyboard. -/
def keyboard : UdevDevice where
  syspath := some (lit "/sys/devices/usb/event3")
  devnode := some (lit "/dev/input/event3")
  subsystem := some (lit "input")
  sysname := some (lit "event3")
  idSeat := none
  hotplug := none
  inputParent := some none
  bootVga := none

/-- The kernel opens every node. -/
def calmProbe : Probe := ⟨true, some (lit "i915"), none, true⟩

/-- A card is found, a keyboard comes, and the card leaves for another seat. -/
def cardLeaves : List (MonitorEvent Unit) :=
  [.scan [(card none, calmProbe)], .act ((), [(0, some 7)]),
    .udev false [⟨some (lit "add"), keyboard, calmProbe⟩,
      ⟨some (lit "change"), card (some "seat1"), calmProbe⟩]]

/-- A user that does nothing when it is told. -/
def quietCb : MonitorCb Unit where
  newDev := fun _ _ _ _ _ => ((), [])
  freeDev := fun _ _ _ => ((), [])
  hotplugDev := fun _ _ _ => ((), [])

theorem follows_run_cardLeaves :
    let mon := Runs.run (step Malloc.bump quietCb (lit "seat0")) (new ()) cardLeaves
    (mon.devices.map (·.2.node)).Nodup ∧ Tells mon.told mon.tags ∧
      (∀ node, mon.known node =
        Runs.run (nodeStep (lit "seat0")) none (reportsAbout node cardLeaves)) ∧
      heard (mon.utermMonitorUnref quietCb).told = some [] :=
  follows_run Malloc.bump quietCb (lit "seat0") Malloc.bump_succeeds () cardLeaves

example : (Runs.run (step Malloc.bump quietCb (lit "seat0")) (new ()) cardLeaves).tags =
    [(1, lit "/dev/input/event3", .input, ⟨false, false, false⟩)] := by decide

end Example

end Monitor

end Faceplate.Uterm
