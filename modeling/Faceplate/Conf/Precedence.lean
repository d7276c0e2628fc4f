import Mathlib.Data.Prod.Basic
import Faceplate.Conf.Assigned
import Faceplate.Conf.Types

/-!
# Precedence of configuration sources

The command line is replayed first and locks what it gives, then come the main file, the
copy into the context of a seat, and the file of the seat, each with the afterchecks
behind it. This file proves that every option ends up with the value of the first of
command line, seat file, main file and default that has one, as long as nothing that
another option implies gets in its way.
-/

namespace Faceplate.Conf

open CString Assignments

/-- The first source that gives a value has the say. -/
def precedence {V : Type*} (sources : List (Option V)) (default : V) : V :=
  (sources.findSome? id).getD default

variable {Φ V : Type*}

/-- The value of an option as its own aftercheck completes it. -/
def ConfOption.settle (o : ConfOption Φ V) (args : Option (List Str)) (value : V) : V :=
  match o.aftercheck with
  | some (.own check) => (check.run args value).2
  | _ => value

/-- No option is on that implies something for this field. -/
def ConfTable.Asleep (table : ConfTable Φ V) (f : Φ) (conf : Φ → V) : Prop :=
  ∀ p ∈ table.opts, ∀ on value, p.aftercheck = some (.implies on f value) →
    on (conf p.mem) = false

/-- No option is given a value that implies something for this field. -/
def ConfTable.Dormant (table : ConfTable Φ V) (f : Φ) (log : List (ℕ × V)) : Prop :=
  ∀ k p, table.opts[k]? = some p → ∀ on value, p.aftercheck = some (.implies on f value) →
    on p.default = false ∧ ∀ given, (k, given) ∈ log → on given = false

theorem ConfTable.Dormant.mono {table : ConfTable Φ V} {f : Φ} {log log' : List (ℕ × V)}
    (h : table.Dormant f log)
    (hsub : ∀ entry ∈ log', entry ∈ log) : table.Dormant f log' := by
  intro k p hp on value himplies
  obtain ⟨hdefault, hgiven⟩ := h k p hp on value himplies
  exact ⟨hdefault, fun given hmem => hgiven given (hsub _ hmem)⟩

namespace ConfTable

variable [DecidableEq Φ] {table : ConfTable Φ V} {o p q : ConfOption Φ V} {conf : Φ → V}
  {args : Option (List Str)} {i : ℕ}

/-! ### Afterchecks -/

/-- A check leaves the options alone that imply something. -/
theorem check_source (hq : q ∈ table.opts) (hp : p ∈ table.opts) {on : V → Bool} {f : Φ}
    {value : V} (himplies : p.aftercheck = some (.implies on f value)) :
    (q.check args conf).2 p.mem = conf p.mem := by
  unfold ConfOption.check
  cases hcheck : q.aftercheck with
  | none => rfl
  | some check =>
    cases check with
    | own check =>
      apply Function.update_of_ne
      intro hmem
      obtain rfl := eq_of_mem hq hp hmem
      rw [himplies] at hcheck
      cases hcheck
    | implies on' target' value' =>
      dsimp only
      split_ifs
      · apply Function.update_of_ne
        exact (table.shallow q hq on' target' value' hcheck p hp on f value himplies).symm
      · rfl

/-- A check of another option leaves an option alone that nothing is implied for. -/
theorem check_other (hq : q ∈ table.opts) (hne : q.mem ≠ o.mem)
    (hasleep : table.Asleep o.mem conf) : (q.check args conf).2 o.mem = conf o.mem := by
  unfold ConfOption.check
  cases hcheck : q.aftercheck with
  | none => rfl
  | some check =>
    cases check with
    | own check => exact Function.update_of_ne hne.symm _ _
    | implies on target value =>
      dsimp only
      split_ifs with hon
      · apply Function.update_of_ne
        rintro rfl
        rw [hasleep q hq on value hcheck] at hon
        cases hon
      · rfl

/-- The check of the option itself completes its value. -/
theorem check_self (ho : o ∈ table.opts) :
    (o.check args conf).2 o.mem = o.settle args (conf o.mem) := by
  unfold ConfOption.settle
  cases hcheck : o.aftercheck with
  | none => simp only [ConfOption.check, hcheck]
  | some check =>
    cases check with
    | own check => simp only [ConfOption.check, hcheck, Function.update_self]
    | implies on target value => exact check_source ho ho hcheck

theorem asleep_check (hq : q ∈ table.opts) {f : Φ} (hasleep : table.Asleep f conf) :
    table.Asleep f (q.check args conf).2 := by
  intro p hp on value himplies
  rw [check_source hq hp himplies]
  exact hasleep p hp on value himplies

theorem asleep_runChecks {qs : List (ConfOption Φ V)} (hqs : ∀ q ∈ qs, q ∈ table.opts) {f : Φ}
    (hasleep : table.Asleep f conf) : table.Asleep f (runChecks qs args conf).2.2 := by
  induction qs generalizing args conf with
  | nil => exact hasleep
  | cons q qs ih =>
    have hstep : table.Asleep f (q.check args conf).2 :=
      asleep_check (hqs q List.mem_cons_self) hasleep
    unfold runChecks
    dsimp only
    split_ifs
    · exact hstep
    · exact ih (fun p hp => hqs p (List.mem_cons_of_mem q hp)) hstep

theorem runChecks_other {qs : List (ConfOption Φ V)} (hqs : ∀ q ∈ qs, q ∈ table.opts)
    (hne : ∀ q ∈ qs, q.mem ≠ o.mem) (hasleep : table.Asleep o.mem conf) :
    (runChecks qs args conf).2.2 o.mem = conf o.mem := by
  induction qs generalizing args conf with
  | nil => rfl
  | cons q qs ih =>
    have hq := hqs q List.mem_cons_self
    have hstep : (q.check args conf).2 o.mem = conf o.mem :=
      check_other hq (hne q List.mem_cons_self) hasleep
    unfold runChecks
    dsimp only
    split_ifs
    · exact hstep
    · refine (ih (fun p hp => hqs p (List.mem_cons_of_mem q hp))
        (fun p hp => hne p (List.mem_cons_of_mem q hp)) (asleep_check hq hasleep)).trans hstep

theorem runChecks_cons (q : ConfOption Φ V) (qs : List (ConfOption Φ V))
    (args : Option (List Str)) (conf : Φ → V) :
    runChecks (q :: qs) args conf =
      if (q.check args conf).1 < 0 then ((q.check args conf).1, args, (q.check args conf).2)
      else runChecks qs (args.map (·.drop (q.check args conf).1.toNat)) (q.check args conf).2 :=
  rfl

theorem runChecks_append (ps qs : List (ConfOption Φ V)) (args : Option (List Str))
    (conf : Φ → V) :
    runChecks (ps ++ qs) args conf =
      if (runChecks ps args conf).1 < 0 then runChecks ps args conf
      else runChecks qs (runChecks ps args conf).2.1 (runChecks ps args conf).2.2 := by
  induction ps generalizing args conf with
  | nil => rfl
  | cons p ps ih =>
    rw [List.cons_append, runChecks_cons, runChecks_cons]
    by_cases hret : (p.check args conf).1 < 0
    · simp only [if_pos hret]
    · simp only [if_neg hret]
      exact ih _ _

/-- Outside the command line no check gets arguments. -/
theorem runChecks_none (qs : List (ConfOption Φ V)) (conf : Φ → V) :
    (runChecks qs none conf).2.1 = none := by
  induction qs generalizing conf with
  | nil => rfl
  | cons q qs ih =>
    unfold runChecks
    dsimp only
    split_ifs
    · rfl
    · exact ih _

/-- A value that a check has completed stays as it is. -/
theorem settle_settle {value : V} (hvalue : conf o.mem = value)
    (hok : ¬ (o.check args conf).1 < 0) :
    o.settle none (o.settle args value) = o.settle args value := by
  subst hvalue
  unfold ConfOption.settle
  cases hcheck : o.aftercheck with
  | none => rfl
  | some check =>
    cases check with
    | own check =>
      have hret : ¬ (check.run args (conf o.mem)).1 < 0 := by
        simpa only [ConfOption.check, hcheck] using hok
      exact check.complete args (conf o.mem) (Int.not_lt.mp hret)
    | implies on target value => rfl

/-- Checks that succeed complete the value of each option for good, by its own check with
the arguments that are left for it. -/
theorem runChecks_settle (ho : table.opts[i]? = some o)
    (hok : 0 ≤ (runChecks table.opts args conf).1) (hasleep : table.Asleep o.mem conf) :
    (runChecks table.opts args conf).2.2 o.mem =
        o.settle (runChecks (table.opts.take i) args conf).2.1 (conf o.mem) ∧
      o.settle none ((runChecks table.opts args conf).2.2 o.mem) =
        (runChecks table.opts args conf).2.2 o.mem := by
  obtain ⟨hlt, hget⟩ := List.getElem?_eq_some_iff.mp ho
  have hsplit : table.opts = table.opts.take i ++ o :: table.opts.drop (i + 1) := by
    rw [← hget, List.getElem_cons_drop, List.take_append_drop]
  have hother : ∀ q, (∃ k, k ≠ i ∧ table.opts[k]? = some q) → q.mem ≠ o.mem := by
    rintro q ⟨k, hk, hq⟩ hmem
    exact hk (index_eq ho hq hmem)
  have hmem : ∀ q, (∃ k, k ≠ i ∧ table.opts[k]? = some q) → q ∈ table.opts := by
    rintro q ⟨k, -, hq⟩
    exact List.mem_of_getElem? hq
  have hbefore : ∀ q ∈ table.opts.take i, ∃ k, k ≠ i ∧ table.opts[k]? = some q := by
    intro q hq
    obtain ⟨k, hk⟩ := List.mem_iff_getElem?.mp hq
    rw [List.getElem?_take] at hk
    split_ifs at hk with hki
    exact ⟨k, by omega, hk⟩
  have hbehind : ∀ q ∈ table.opts.drop (i + 1), ∃ k, k ≠ i ∧ table.opts[k]? = some q := by
    intro q hq
    obtain ⟨k, hk⟩ := List.mem_iff_getElem?.mp hq
    rw [List.getElem?_drop] at hk
    exact ⟨i + 1 + k, by omega, hk⟩
  have hstart : (runChecks (table.opts.take i) args conf).2.2 o.mem = conf o.mem :=
    runChecks_other (fun q hq => hmem q (hbefore q hq)) (fun q hq => hother q (hbefore q hq))
      hasleep
  have hawake : table.Asleep o.mem (runChecks (table.opts.take i) args conf).2.2 :=
    asleep_runChecks (fun q hq => hmem q (hbefore q hq)) hasleep
  have hin : o ∈ table.opts := List.mem_of_getElem? ho
  have hrun : runChecks table.opts args conf =
      if (runChecks (table.opts.take i) args conf).1 < 0 then
        runChecks (table.opts.take i) args conf
      else runChecks (o :: table.opts.drop (i + 1)) (runChecks (table.opts.take i) args conf).2.1
        (runChecks (table.opts.take i) args conf).2.2 := by
    conv_lhs => rw [hsplit]
    exact runChecks_append _ _ _ _
  rw [hrun] at hok ⊢
  revert hok hstart hawake
  generalize runChecks (table.opts.take i) args conf = before
  obtain ⟨ret, left, mid⟩ := before
  intro hok hstart hawake
  dsimp only at hok hstart hawake ⊢
  by_cases hfail : ret < 0
  · rw [if_pos hfail] at hok
    omega
  rw [if_neg hfail, runChecks_cons] at hok ⊢
  by_cases hown : (o.check left mid).1 < 0
  · rw [if_pos hown] at hok
    omega
  rw [if_neg hown] at hok ⊢
  have hself : (o.check left mid).2 o.mem = o.settle left (conf o.mem) := by
    rw [check_self hin, hstart]
  have hasleep' : table.Asleep o.mem (o.check left mid).2 := asleep_check hin hawake
  rw [runChecks_other (fun q hq => hmem q (hbehind q hq)) (fun q hq => hother q (hbehind q hq))
    hasleep', hself]
  exact ⟨rfl, settle_settle hstart hown⟩

/-! ### Contexts -/

theorem foldl_default {opts : List (ConfOption Φ V)} (hnodup : (opts.map (·.mem)).Nodup)
    (ho : o ∈ opts) (conf : Φ → V) :
    opts.foldl (fun conf o => Function.update conf o.mem o.default) conf o.mem = o.default := by
  induction opts using List.reverseRecOn with
  | nil => cases ho
  | append_singleton opts q ih =>
    rw [List.foldl_append]
    change Function.update (opts.foldl (fun conf o => Function.update conf o.mem o.default) conf)
      q.mem q.default o.mem = _
    rw [List.map_append, List.nodup_append] at hnodup
    obtain ⟨hfirst, -, hapart⟩ := hnodup
    rcases List.mem_append.mp ho with hin | hlast
    · have hne : o.mem ≠ q.mem :=
        hapart o.mem (List.mem_map_of_mem hin) q.mem List.mem_cons_self
      rw [Function.update_of_ne hne]
      exact ih hfirst hin
    · rw [List.mem_singleton.mp hlast, Function.update_self]

/-- A new context has the defaults. -/
theorem new_conf (ho : o ∈ table.opts) (mem : Φ → V) :
    (ConfCtx.new table.opts mem).conf o.mem = o.default :=
  foldl_default table.nodup ho mem

variable {ctx src : ConfCtx Φ V} {n : ℕ}

/-- What copying an option leaves behind, in a context where it is not locked. -/
theorem copyOption_conf (hd : o ∈ table.opts) (hlocked : ctx.locked n = false)
    (hok : (ctx.copyOption src n o o).1 = 0) :
    (ctx.copyOption src n o o).2.conf o.mem = src.conf o.mem ∧
      (∀ p ∈ table.opts, p.mem ≠ o.mem →
        (ctx.copyOption src n o o).2.conf p.mem = ctx.conf p.mem) ∧
      (ctx.copyOption src n o o).2.locked =
        Function.update ctx.locked n (src.locked n) := by
  have hlock : (if src.locked n = true then ctx.lock n else ctx).locked =
      Function.update ctx.locked n (src.locked n) := by
    cases hsrc : src.locked n with
    | true => rfl
    | false =>
      rw [if_neg Bool.false_ne_true, ← hlocked, Function.update_eq_self]
  have hconf : (if src.locked n = true then ctx.lock n else ctx).conf = ctx.conf := by
    split_ifs
    · rfl
    · rfl
  revert hlock hconf hok
  unfold ConfCtx.copyOption
  rw [if_neg (by simp [hlocked])]
  dsimp only
  generalize (if src.locked n = true then ctx.lock n else ctx) = mid
  intro hok hlock hconf
  by_cases hret : (o.type.copy (mid.conf o.mem) (src.conf o.mem)).1 = 0
  · have hcopied := o.type.copied (mid.conf o.mem) (src.conf o.mem) hret
    rw [if_neg (not_not.mpr hret), hcopied]
    cases hhelper : o.copy with
    | none =>
      refine ⟨Function.update_self .., fun p _ hne => ?_, hlock⟩
      rw [← hconf]
      exact Function.update_of_ne hne _ _
    | some copy =>
      refine ⟨?_, fun p hp hne => ?_, hlock⟩
      · exact (table.helper o hd copy hhelper _ _ o hd).trans (Function.update_self ..)
      · rw [← hconf]
        exact (table.helper o hd copy hhelper _ _ p hp).trans (Function.update_of_ne hne _ _)
  · rw [if_pos hret] at hok
    exact absurd hok hret

theorem copyOption_opts (ctx src : ConfCtx Φ V) (n : ℕ) (d s : ConfOption Φ V) :
    (ctx.copyOption src n d s).2.opts = ctx.opts := by
  unfold ConfCtx.copyOption
  have hlock : (if src.locked n = true then ctx.lock n else ctx).opts = ctx.opts := by
    split_ifs
    · rfl
    · rfl
  by_cases hskip : d.type.id ≠ s.type.id ∨ ctx.locked n = true
  · rw [if_pos hskip]
  · rw [if_neg hskip]
    dsimp only
    by_cases hret : (d.type.copy ((if src.locked n = true then ctx.lock n else ctx).conf d.mem)
        (src.conf s.mem)).1 ≠ 0
    · rw [if_pos hret]
      exact hlock
    · rw [if_neg hret]
      cases d.copy with
      | none => exact hlock
      | some copy => exact hlock

theorem copyOptions_opts (ctx src : ConfCtx Φ V) (n : ℕ) (ds ss : List (ConfOption Φ V)) :
    (ctx.copyOptions src n ds ss).2.opts = ctx.opts := by
  induction ds generalizing ctx n ss with
  | nil => rfl
  | cons d ds ih =>
    cases ss with
    | nil => rfl
    | cons s ss =>
      unfold ConfCtx.copyOptions
      dsimp only
      split_ifs
      · exact copyOption_opts ctx src n d s
      · exact (ih _ _ _).trans (copyOption_opts ctx src n d s)

/-- Copying from option `n` on gives every later option the value and the lock of the
source, and leaves the earlier ones alone. -/
theorem copyOptions_conf {ds : List (ConfOption Φ V)} (hds : ds = table.opts.drop n)
    (hlocked : ∀ k, n ≤ k → ctx.locked k = false)
    (hok : (ctx.copyOptions src n ds ds).1 = 0) (ho : table.opts[i]? = some o) :
    (ctx.copyOptions src n ds ds).2.conf o.mem =
        (if n ≤ i then src.conf o.mem else ctx.conf o.mem) ∧
      (ctx.copyOptions src n ds ds).2.locked i =
        (if n ≤ i then src.locked i else ctx.locked i) := by
  induction ds generalizing n ctx with
  | nil =>
    have hlt := (List.getElem?_eq_some_iff.mp ho).1
    have hle := List.drop_eq_nil_iff.mp hds.symm
    rw [if_neg (by omega), if_neg (by omega)]
    exact ⟨rfl, rfl⟩
  | cons d ds ih =>
    have hn : n < table.opts.length := by
      by_contra hlt
      rw [List.drop_eq_nil_iff.mpr (by omega)] at hds
      cases hds
    rw [List.drop_eq_getElem_cons hn] at hds
    obtain ⟨hd, hrest⟩ := List.cons_eq_cons.mp hds
    have hget : table.opts[n]? = some d := by
      rw [List.getElem?_eq_getElem hn, hd]
    have hin : d ∈ table.opts := List.mem_of_getElem? hget
    unfold ConfCtx.copyOptions at hok ⊢
    by_cases hret : (ctx.copyOption src n d d).1 = 0
    · simp only [if_neg (not_not.mpr hret)] at hok ⊢
      obtain ⟨hself, hothers, hlock⟩ := copyOption_conf hin (hlocked n le_rfl) hret
      have hstill : ∀ k, n + 1 ≤ k → (ctx.copyOption src n d d).2.locked k = false := by
        intro k hk
        rw [hlock, Function.update_of_ne (by omega)]
        exact hlocked k (by omega)
      obtain ⟨hvalue, hlocks⟩ := ih hrest hstill hok
      rw [hvalue, hlocks, hlock]
      by_cases hi : i = n
      · have hbehind : ¬ n + 1 ≤ i := by omega
        have hle : n ≤ i := by omega
        simp only [hbehind, hle, if_true, if_false]
        rw [hi, Function.update_self]
        obtain rfl : d = o := by
          rw [hi, hget] at ho
          exact Option.some_inj.mp ho
        exact ⟨hself, rfl⟩
      · have hne : o.mem ≠ d.mem := fun hmem => hi (index_eq hget ho hmem)
        rw [Function.update_of_ne hi]
        by_cases hle : n ≤ i
        · have hbehind : n + 1 ≤ i := by omega
          simp only [hbehind, hle, if_true, and_self]
        · have hbehind : ¬ n + 1 ≤ i := by omega
          simp only [hbehind, hle, if_false, and_true]
          exact hothers o (List.mem_of_getElem? ho) hne
    · simp only [if_pos hret] at hok
      exact absurd hok hret

/-! ### Stages -/

/-- The arguments that the afterchecks of a command line leave for option `i`. -/
def operandsLeft (table : ConfTable Φ V) (mem : Φ → V) (argv : List Str) (i : ℕ) :
    Option (List Str) :=
  let (results, operands) := getoptLong table.opts argv.length [] argv.tail
  let (_, ctx) := (ConfCtx.new table.opts mem).parseResults results
  (runChecks (table.opts.take i) (some (operands.getD [])) ctx.conf).2.1

/-- Where an option stands after a source: its value, complete, whether it is locked, and
that nothing is implied for it. -/
structure Stands (table : ConfTable Φ V) (i : ℕ) (o : ConfOption Φ V) (ctx : ConfCtx Φ V)
    (value : V) (locked : Bool) : Prop where
  opts : ctx.opts = table.opts
  holds : ctx.conf o.mem = value
  complete : o.settle none value = value
  locked : ctx.locked i = locked
  asleep : table.Asleep o.mem ctx.conf

/-- Afterchecks behind a source. -/
theorem stands_check {value : V} {locked : Bool} (ho : table.opts[i]? = some o)
    (hopts : ctx.opts = table.opts) (hvalue : ctx.conf o.mem = value)
    (hlocked : ctx.locked i = locked) (hasleep : table.Asleep o.mem ctx.conf)
    (hok : 0 ≤ (ctx.check args).1) :
    table.Stands i o (ctx.check args).2.2
      (o.settle (runChecks (table.opts.take i) args ctx.conf).2.1 value) locked := by
  subst hvalue
  unfold ConfCtx.check at hok ⊢
  rw [hopts] at hok ⊢
  obtain ⟨hsettle, hcomplete⟩ := runChecks_settle ho hok hasleep
  refine ⟨rfl, hsettle, ?_, hlocked, ?_⟩
  · rw [← hsettle]
    exact hcomplete
  · exact asleep_runChecks (fun q hq => hq) hasleep

/-- A file that loads is replayed, and the checks behind it succeed. -/
theorem parseFile_content (hopts : ctx.opts = table.opts) {buf : List UInt8}
    (hok : (ctx.parseFile (.content buf)).1 = 0) :
    (ctx.parseFile (.content buf)).2 =
        (((fileLog table.opts (.content buf)).foldl ConfCtx.offer ctx).check none).2.2 ∧
      0 ≤ (((fileLog table.opts (.content buf)).foldl ConfCtx.offer ctx).check none).1 := by
  have hreplay : (ctx.parseEntries (bufferEntries buf.length buf)).1 = 0 → _ :=
    ConfCtx.parseEntries_eq
  rcases hentries : ctx.parseEntries (bufferEntries buf.length buf) with ⟨ret, next⟩
  simp only [ConfCtx.parseFile, ConfCtx.parseBuffer, hentries] at hok ⊢
  by_cases hret : ret = 0
  · rw [if_neg (not_not.mpr hret)] at hok ⊢
    have hlog := hreplay ((congrArg Prod.fst hentries).trans hret)
    rw [hentries, hopts] at hlog
    change next = (fileLog table.opts (.content buf)).foldl ConfCtx.offer ctx at hlog
    rw [← hlog]
    refine ⟨rfl, ?_⟩
    by_contra hneg
    rw [if_pos (by omega)] at hok
    omega
  · rw [if_pos hret] at hok
    exact absurd hok hret

/-- What is off by default and in all that a file gives stays off. -/
theorem asleep_offer (hopts : ctx.opts = table.opts) {f : Φ} (hasleep : table.Asleep f ctx.conf)
    {log : List (ℕ × V)} (hdormant : table.Dormant f log) :
    table.Asleep f (log.foldl ConfCtx.offer ctx).conf := by
  intro p hp on value himplies
  obtain ⟨k, hk⟩ := List.mem_iff_getElem?.mp hp
  rw [offer_conf hopts hk]
  have hold := hasleep p hp on value himplies
  split_ifs
  · exact hold
  · cases hlast : last k log with
    | none => exact hold
    | some given => exact (hdormant k p hk on value himplies).2 given (mem_of_last hlast)

/-- A file that loads gives an option that is not locked its last value there. -/
theorem Stands.parseFile {value : V} {locked : Bool} (h : table.Stands i o ctx value locked)
    (ho : table.opts[i]? = some o) {file : ConfFile} (hok : (ctx.parseFile file).1 = 0)
    (hdormant : table.Dormant o.mem (fileLog table.opts file)) :
    table.Stands i o (ctx.parseFile file).2
      (if locked then value
        else ((last i (fileLog table.opts file)).map (o.settle none)).getD value) locked := by
  cases file with
  | absent => simpa [ConfCtx.parseFile, fileLog] using h
  | unreadable ret => simpa [ConfCtx.parseFile, fileLog] using h
  | content buf =>
    obtain ⟨hnext, hcheck⟩ := parseFile_content h.opts hok
    rw [hnext]
    revert hcheck hdormant
    generalize fileLog table.opts (.content buf) = log
    intro hdormant hcheck
    have hopts := (ConfCtx.offer_opts log ctx).trans h.opts
    have hlocked := (congrFun (ConfCtx.offer_locked log ctx) i).trans h.locked
    have hstands := stands_check ho hopts (offer_conf h.opts ho log) hlocked
      (asleep_offer h.opts h.asleep hdormant) hcheck
    rw [runChecks_none, h.locked, h.holds] at hstands
    suffices hsettle : o.settle none (if locked = true then value else (last i log).getD value) =
        if locked = true then value else ((last i log).map (o.settle none)).getD value by
      rwa [hsettle] at hstands
    cases locked with
    | true => exact h.complete
    | false =>
      cases last i log with
      | none => exact h.complete
      | some given => rfl

/-- What is off by default and in all that the command line gives stays off. -/
theorem asleep_give (mem : Φ → V) {f : Φ} {log : List (ℕ × V)} (hdormant : table.Dormant f log) :
    table.Asleep f (log.foldl ConfCtx.give (ConfCtx.new table.opts mem)).conf := by
  intro p hp on value himplies
  obtain ⟨k, hk⟩ := List.mem_iff_getElem?.mp hp
  obtain ⟨hdefault, hgiven⟩ := hdormant k p hk on value himplies
  rw [(give_conf rfl hk log).1, new_conf hp]
  cases hlast : last k log with
  | none => exact hdefault
  | some given => exact hgiven given (mem_of_last hlast)

/-- A command line that parses gives an option its last value there and locks it. -/
theorem stands_parseArgv (ho : table.opts[i]? = some o) (mem : Φ → V) {argv : List Str}
    (hok : ((ConfCtx.new table.opts mem).parseArgv argv).1 = 0)
    (hdormant : table.Dormant o.mem (argvLog table.opts argv)) :
    table.Stands i o ((ConfCtx.new table.opts mem).parseArgv argv).2 (o.settle
      (table.operandsLeft mem argv i) ((last i (argvLog table.opts argv)).getD o.default))
      (last i (argvLog table.opts argv)).isSome := by
  have hnew : (ConfCtx.new table.opts mem).opts = table.opts := rfl
  rcases hgetopt : getoptLong table.opts argv.length [] argv.tail with ⟨results, operands⟩
  rcases hresults : (ConfCtx.new table.opts mem).parseResults results with ⟨ret, next⟩
  have hlog : argvLog table.opts argv =
      results.filterMap (GetoptResult.assignment table.opts) := by
    rw [argvLog, hgetopt]
  simp only [ConfCtx.parseArgv, operandsLeft, hnew, hgetopt, hresults] at hok ⊢
  by_cases hret : ret = 0
  · rw [if_neg (not_not.mpr hret)] at hok ⊢
    have hnext := ConfCtx.parseResults_eq ((congrArg Prod.fst hresults).trans hret)
    rw [hresults, hnew, ← hlog] at hnext
    change next = _ at hnext
    have hasleep := asleep_give mem hdormant
    obtain ⟨hvalue, hlocked⟩ := give_conf hnew ho (argvLog table.opts argv)
    have hopts : next.opts = table.opts := by
      rw [hnext, ConfCtx.give_opts, hnew]
    rw [← hnext] at hasleep hvalue hlocked
    rw [new_conf (List.mem_of_getElem? ho)] at hvalue
    have hcheck : 0 ≤ (next.check (some (operands.getD []))).1 := by
      by_contra hneg
      rw [if_pos (by omega)] at hok
      change (next.check (some (operands.getD []))).1 = 0 at hok
      omega
    rw [if_neg (by omega)]
    have hstands := stands_check ho hopts hvalue hlocked hasleep hcheck
    rw [show (ConfCtx.new table.opts mem).locked i = false from rfl, Bool.or_false] at hstands
    split_ifs
    · exact hstands
    · exact hstands
  · rw [if_pos hret] at hok
    exact absurd hok hret

/-- A context that is copied gives all its values and locks. -/
theorem Stands.parseCtx {value : V} {locked : Bool} (h : table.Stands i o src value locked)
    (ho : table.opts[i]? = some o) (mem : Φ → V)
    (hok : ((ConfCtx.new table.opts mem).parseCtx src).1 = 0) :
    table.Stands i o ((ConfCtx.new table.opts mem).parseCtx src).2 value locked := by
  have hnew : (ConfCtx.new table.opts mem).opts = table.opts := rfl
  rcases hcopy : (ConfCtx.new table.opts mem).copyOptions src 0 table.opts table.opts with
    ⟨ret, next⟩
  simp only [ConfCtx.parseCtx, hnew, h.opts, hcopy] at hok ⊢
  by_cases hret : ret = 0
  · rw [if_neg (not_not.mpr hret)] at hok ⊢
    have hds : table.opts = table.opts.drop 0 := rfl
    have hunlocked : ∀ k, 0 ≤ k → (ConfCtx.new table.opts mem).locked k = false := fun _ _ => rfl
    have hdone : ((ConfCtx.new table.opts mem).copyOptions src 0 table.opts table.opts).1 = 0 :=
      (congrArg Prod.fst hcopy).trans hret
    have hcopied : ∀ {k : ℕ} {p : ConfOption Φ V}, table.opts[k]? = some p →
        next.conf p.mem = src.conf p.mem ∧ next.locked k = src.locked k := by
      intro k p hp
      have hconf := copyOptions_conf hds hunlocked hdone hp
      simpa only [Nat.zero_le, if_true, hcopy] using hconf
    obtain ⟨hvalue, hlocked⟩ := hcopied ho
    have hopts : next.opts = table.opts := by
      have hstill := copyOptions_opts (ConfCtx.new table.opts mem) src 0 table.opts table.opts
      rwa [hcopy] at hstill
    have hasleep : table.Asleep o.mem next.conf := by
      intro p hp on target himplies
      obtain ⟨k, hk⟩ := List.mem_iff_getElem?.mp hp
      rw [(hcopied hk).1]
      exact h.asleep p hp on target himplies
    have hcheck : 0 ≤ (next.check none).1 := by
      by_contra hneg
      rw [if_pos (by omega)] at hok
      change (next.check none).1 = 0 at hok
      omega
    have hstands := stands_check ho hopts (hvalue.trans h.holds) (hlocked.trans h.locked) hasleep
      hcheck
    rw [runChecks_none, h.complete] at hstands
    exact hstands
  · rw [if_pos hret] at hok
    exact absurd hok hret

end ConfTable

namespace KmsconTable

variable [DecidableEq Φ] {table : KmsconTable Φ V} {o : ConfOption Φ V} {i : ℕ}

theorem preferMode_mode (ctx : ConfCtx Φ V) :
    (table.preferMode ctx).conf table.mode = ctx.conf table.mode := by
  unfold preferMode
  split_ifs
  · exact Function.update_of_ne table.apart _ _
  · rfl

/-- A given mode changes one option only. -/
theorem stands_preferMode {ctx : ConfCtx Φ V} {value : V} {locked : Bool}
    (h : table.Stands i o ctx value locked)
    (hmode : o.mem = table.useOriginalMode → table.text (ctx.conf table.mode) = none) :
    table.Stands i o (table.preferMode ctx) value locked := by
  unfold preferMode
  split_ifs with hgiven
  · have hne : o.mem ≠ table.useOriginalMode := by
      intro hmem
      rw [hmode hmem] at hgiven
      simp at hgiven
    refine ⟨h.opts, (Function.update_of_ne hne _ _).trans h.holds, h.complete, h.locked, ?_⟩
    intro p hp on target himplies
    dsimp only
    rw [Function.update_of_ne (table.plain p hp on o.mem target himplies)]
    exact h.asleep p hp on target himplies
  · exact h

theorem loadMain_eq {mem : Φ → V} {files : Str → ConfFile} {argv : List Str}
    {parsed main : ConfCtx Φ V}
    (hargv : (ConfCtx.new table.opts mem).parseArgv argv = (0, parsed))
    (hexit : table.on (parsed.conf table.exit) = false)
    (hmain : table.loadMain files argv (ConfCtx.new table.opts mem) = (0, main)) :
    ∃ next, parsed.parseFile (table.mainFile files parsed) = (0, next) ∧
      table.preferMode next = main := by
  rcases hfile : parsed.parseFile (table.mainFile files parsed) with ⟨ret, next⟩
  simp only [loadMain, hargv, hexit, Bool.false_eq_true, if_false, hfile] at hmain
  by_cases hret : ret = 0
  · rw [if_neg (not_not.mpr hret)] at hmain
    exact ⟨next, by rw [hret], congrArg Prod.snd hmain⟩
  · rw [if_pos hret] at hmain
    exact absurd (congrArg Prod.fst hmain) hret

theorem loadSeat_eq {files : Str → ConfFile} {main start ctx : ConfCtx Φ V} {seat : Str}
    (hseat : table.loadSeat files main seat start = (0, ctx)) :
    (start.parseCtx main).1 = 0 ∧
      (start.parseCtx main).2.parseFile (table.seatFile files seat (start.parseCtx main).2) =
        (0, ctx) := by
  rcases hcopy : start.parseCtx main with ⟨ret, copied⟩
  simp only [loadSeat, hcopy] at hseat ⊢
  by_cases hret : ret = 0
  · rw [if_neg (not_not.mpr hret)] at hseat
    exact ⟨hret, hseat⟩
  · rw [if_pos hret] at hseat
    exact absurd (congrArg Prod.fst hseat) hret

/-- After the command line, the main file and the file of a seat, an option has the last
value that the command line gives it, else the last one in the seat file, else the last
one in the main file, else its default, each as its own aftercheck completes it. Left
aside are what another option implies when it is on, the exit that is asked for, and the
option that a given mode disables. -/
theorem loadSeat_precedence (mem : Φ → V) (files : Str → ConfFile) (argv : List Str) (seat : Str)
    (ho : table.opts[i]? = some o) {parsed main ctx : ConfCtx Φ V}
    (hargv : (ConfCtx.new table.opts mem).parseArgv argv = (0, parsed))
    (hexit : table.on (parsed.conf table.exit) = false)
    (hmain : table.loadMain files argv (ConfCtx.new table.opts mem) = (0, main))
    (hseat : table.loadSeat files main seat (ConfCtx.new table.opts mem) = (0, ctx))
    (hmode : o.mem = table.useOriginalMode → table.text (main.conf table.mode) = none)
    (hdormant : table.Dormant o.mem (argvLog table.opts argv ++
      fileLog table.opts (table.mainFile files parsed) ++
      fileLog table.opts
        (table.seatFile files seat ((ConfCtx.new table.opts mem).parseCtx main).2))) :
    ctx.conf o.mem = precedence
      [(last i (argvLog table.opts argv)).map (o.settle (table.operandsLeft mem argv i)),
        (last i (fileLog table.opts
          (table.seatFile files seat ((ConfCtx.new table.opts mem).parseCtx main).2))).map
            (o.settle none),
        (last i (fileLog table.opts (table.mainFile files parsed))).map (o.settle none)]
      (o.settle (table.operandsLeft mem argv i) o.default) := by
  have hok : ((ConfCtx.new table.opts mem).parseArgv argv).1 = 0 := by rw [hargv]
  have hparsed := ConfTable.stands_parseArgv ho mem hok
    (hdormant.mono fun entry hentry => by simp [hentry])
  rw [hargv] at hparsed
  have hmainFile : table.Dormant o.mem (fileLog table.opts (table.mainFile files parsed)) :=
    hdormant.mono fun entry hentry => by simp [hentry]
  obtain ⟨next, hnext, rfl⟩ := loadMain_eq hargv hexit hmain
  have hloaded := hparsed.parseFile ho (by rw [hnext]) hmainFile
  rw [hnext] at hloaded
  rw [preferMode_mode] at hmode
  have hmainStands := stands_preferMode hloaded hmode
  obtain ⟨hcopied, hctx⟩ := loadSeat_eq hseat
  have hseatFile : table.Dormant o.mem (fileLog table.opts (table.seatFile files seat
      ((ConfCtx.new table.opts mem).parseCtx (table.preferMode next)).2)) :=
    hdormant.mono fun entry hentry => by simp [hentry]
  have hcopy := hmainStands.parseCtx ho mem hcopied
  have hfinal := hcopy.parseFile ho (by rw [hctx]) hseatFile
  rw [hctx] at hfinal
  rw [hfinal.holds]
  unfold precedence
  cases last i (argvLog table.opts argv) with
  | some given => rfl
  | none =>
    cases last i (fileLog table.opts (table.seatFile files seat
      ((ConfCtx.new table.opts mem).parseCtx (table.preferMode next)).2)) with
    | some given => rfl
    | none =>
      cases last i (fileLog table.opts (table.mainFile files parsed)) with
      | some given => rfl
      | none => rfl

end KmsconTable

/-- `kmscon -v --font-name=Terminus --login -- sh -l`. -/
def sampleArgv : List Str :=
  [lit "kmscon", lit "-v", lit "--font-name=Terminus", lit "--login", lit "--", lit "sh",
    lit "-l"]

/-- A main file and the file of one seat. -/
def sampleFiles (path : Str) : ConfFile :=
  if path = lit "/etc/kmscon/kmscon.conf" then
    .content (lit "font-name=Unifont\nfont-size=20 # pixels\nsb-size=500\nlogin=bash\n")
  else if path = lit "/etc/kmscon/seat0.seat.conf" then
    .content (lit "font-size = 24\nfont-size = 32\nno-verbose\nfont-name=Hack")
  else .absent

/-- The contexts of the command line, of the main configuration and of the seat. -/
def sampleParsed : ConfCtx Field ConfValue :=
  ((ConfCtx.new confTable.opts fun _ => .bool false).parseArgv sampleArgv).2

def sampleMain : ConfCtx Field ConfValue :=
  (confTable.loadMain sampleFiles sampleArgv (ConfCtx.new confTable.opts fun _ => .bool false)).2

def sampleSeat : ConfCtx Field ConfValue :=
  (confTable.loadSeat sampleFiles sampleMain (lit "seat0")
    (ConfCtx.new confTable.opts fun _ => .bool false)).2

/-- The font size comes from the last line of the seat file. -/
theorem sampleSeat_fontSize : sampleSeat.conf .fontSize = .int 32 := by
  -- one evaluation for what the theorem asks of the command line and of the files
  have hchecks : ((ConfCtx.new confTable.opts fun _ => .bool false).parseArgv sampleArgv).1 = 0 ∧
      confTable.on (sampleParsed.conf confTable.exit) = false ∧
      (confTable.loadMain sampleFiles sampleArgv
        (ConfCtx.new confTable.opts fun _ => .bool false)).1 = 0 ∧
      (confTable.loadSeat sampleFiles sampleMain (lit "seat0")
        (ConfCtx.new confTable.opts fun _ => .bool false)).1 = 0 := by
    decide +kernel
  obtain ⟨hargv, hexit, hmain, hseat⟩ := hchecks
  have hvalue := @KmsconTable.loadSeat_precedence Field ConfValue _ confTable
    (optionUint "font-size" .fontSize 16) 9 (fun _ => .bool false) sampleFiles sampleArgv
    (lit "seat0") rfl sampleParsed sampleMain sampleSeat
    (Prod.ext hargv sampleParsed.eq_def.symm) hexit (Prod.ext hmain sampleMain.eq_def.symm)
    (Prod.ext hseat sampleSeat.eq_def.symm)
  rw [show (optionUint "font-size" Field.fontSize 16).mem = .fontSize from rfl] at hvalue
  rw [hvalue]
  · decide +kernel
  · intro hmem
    cases hmem
  · intro k p hp on value himplies
    obtain ⟨-, htarget⟩ := confOptions_implies (List.mem_of_getElem? hp) himplies
    rcases htarget with htarget | htarget <;> cases htarget

end Faceplate.Conf
