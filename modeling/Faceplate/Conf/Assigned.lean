import Mathlib.Data.List.Nodup
import Mathlib.Tactic.SplitIfs
import Faceplate.Conf.Basic
import Faceplate.Lib.Assignments

/-!
# What a source assigns

A command line and a file are logs of assignments to the options of a table. When they
are parsed without error, the context is that of replaying the log: the command line
assigns and locks, a file passes over options that are locked. So each option has the
last value that its log assigns.
-/

namespace Faceplate.Conf

open CString Assignments

variable {Φ V : Type*}

/-- The assignment that a callback makes, if it succeeds. -/
def Parser.assignment (parser : Parser V) (i : ℕ) (on : Bool) (arg : Option Str) (old : V) :
    Option (ℕ × V) :=
  if (parser.run on arg old).1 = 0 then some (i, (parser.run on arg old).2) else none

/-- The assignment of a result of `getopt_long`. -/
def GetoptResult.assignment (opts : List (ConfOption Φ V)) (result : GetoptResult) :
    Option (ℕ × V) :=
  (result.option opts).bind fun (i, o, on, arg) => o.type.parse.assignment i on arg o.default

/-- The assignment of a line. -/
def lineAssignment (opts : List (ConfOption Φ V)) (entry : Str × Option Str) : Option (ℕ × V) :=
  (findKey opts entry.1).bind fun (i, o, on) =>
    match o.file with
    | some file => file.assignment i on entry.2 o.default
    | none =>
      if o.type.hasArg ≠ entry.2.isSome then none
      else o.type.parse.assignment i on entry.2 o.default

/-- The assignments of a command line. -/
def argvLog (opts : List (ConfOption Φ V)) (argv : List Str) : List (ℕ × V) :=
  (getoptLong opts argv.length [] argv.tail).1.filterMap (GetoptResult.assignment opts)

/-- The assignments of a file. -/
def fileLog (opts : List (ConfOption Φ V)) : ConfFile → List (ℕ × V)
  | .content buf => (bufferEntries buf.length buf).filterMap (lineAssignment opts)
  | _ => []

theorem Parser.assignment_eq (parser : Parser V) (i : ℕ) (on : Bool) (arg : Option Str)
    {old : V} (h : (parser.run on arg old).1 = 0) (other : V) :
    parser.assignment i on arg other = some (i, (parser.run on arg old).2) := by
  have hfresh := parser.fresh on arg old other h
  rw [Parser.assignment, hfresh, if_pos h]

/-- The option that a result stands for is in the table. -/
theorem GetoptResult.getElem_of_option {opts : List (ConfOption Φ V)} {result : GetoptResult}
    {i : ℕ} {o : ConfOption Φ V} {on : Bool} {arg : Option Str}
    (h : result.option opts = some (i, o, on, arg)) : opts[i]? = some o := by
  cases result with
  | short c optarg =>
    obtain ⟨⟨p, k⟩, hfind, heq⟩ := Option.map_eq_some_iff.mp h
    cases heq
    exact List.mem_zipIdx_iff_getElem?.mp (List.mem_of_find?_eq_some hfind)
  | long k optarg =>
    obtain ⟨p, hget, heq⟩ := Option.map_eq_some_iff.mp h
    cases heq
    exact hget
  | noLong k =>
    obtain ⟨p, hget, heq⟩ := Option.map_eq_some_iff.mp h
    cases heq
    exact hget
  | missing => cases h
  | unknown => cases h

theorem getElem_of_findKey {opts : List (ConfOption Φ V)} {key : Str} {i : ℕ}
    {o : ConfOption Φ V} {on : Bool} (h : findKey opts key = some (i, o, on)) :
    opts[i]? = some o := by
  obtain ⟨⟨p, k⟩, hmem, hmap⟩ := List.exists_of_findSome?_eq_some h
  obtain ⟨sign, -, heq⟩ := Option.map_eq_some_iff.mp hmap
  cases heq
  exact List.mem_zipIdx_iff_getElem?.mp hmem

namespace ConfCtx

variable [DecidableEq Φ] {ctx : ConfCtx Φ V}

/-- An option by its number gets a value. -/
def assign (k : ℕ) (value : V) (ctx : ConfCtx Φ V) : ConfCtx Φ V :=
  match ctx.opts[k]? with
  | none => ctx
  | some o => ctx.set o value

theorem assign_of_getElem {k : ℕ} {o : ConfOption Φ V} (h : ctx.opts[k]? = some o) (value : V) :
    ctx.assign k value = ctx.set o value := by
  simp only [assign, h]

@[simp] theorem assign_opts (k : ℕ) (value : V) (ctx : ConfCtx Φ V) :
    (ctx.assign k value).opts = ctx.opts := by
  unfold assign
  split <;> rfl

@[simp] theorem assign_locked (k : ℕ) (value : V) (ctx : ConfCtx Φ V) :
    (ctx.assign k value).locked = ctx.locked := by
  unfold assign
  split <;> rfl

/-- An assignment of the command line. -/
def give (ctx : ConfCtx Φ V) (entry : ℕ × V) : ConfCtx Φ V :=
  (ctx.assign entry.1 entry.2).lock entry.1

/-- An assignment of a file. -/
def offer (ctx : ConfCtx Φ V) (entry : ℕ × V) : ConfCtx Φ V :=
  if ctx.locked entry.1 then ctx else ctx.assign entry.1 entry.2

theorem give_opts (log : List (ℕ × V)) (ctx : ConfCtx Φ V) :
    (log.foldl give ctx).opts = ctx.opts := by
  induction log generalizing ctx with
  | nil => rfl
  | cons entry log ih => exact (ih _).trans (assign_opts _ _ _)

theorem offer_opts (log : List (ℕ × V)) (ctx : ConfCtx Φ V) :
    (log.foldl offer ctx).opts = ctx.opts := by
  induction log generalizing ctx with
  | nil => rfl
  | cons entry log ih =>
    refine (ih _).trans ?_
    unfold offer
    split_ifs
    · rfl
    · exact assign_opts _ _ _

theorem offer_locked (log : List (ℕ × V)) (ctx : ConfCtx Φ V) :
    (log.foldl offer ctx).locked = ctx.locked := by
  induction log generalizing ctx with
  | nil => rfl
  | cons entry log ih =>
    refine (ih _).trans ?_
    unfold offer
    split_ifs
    · rfl
    · exact assign_locked _ _ _

theorem parseResult_of_none {result : GetoptResult} (h : (ctx.parseResult result).1 = 0)
    (hopt : result.option ctx.opts = none) : (ctx.parseResult result).2 = ctx := by
  cases result with
  | missing => rfl
  | unknown => rfl
  | short c optarg => simp only [parseResult, hopt]
  | long k optarg => simp only [parseResult, hopt]
  | noLong k => simp only [parseResult, hopt]

theorem parseResult_of_some {result : GetoptResult} {i : ℕ} {o : ConfOption Φ V} {on : Bool}
    {arg : Option Str} (hopt : result.option ctx.opts = some (i, o, on, arg)) :
    ctx.parseResult result =
      if (ctx.parseInto o o.type.parse on arg).1 ≠ 0 then ctx.parseInto o o.type.parse on arg
      else (0, (ctx.parseInto o o.type.parse on arg).2.lock i) := by
  cases result with
  | missing => cases hopt
  | unknown => cases hopt
  | short c optarg => simp only [parseResult, hopt]
  | long k optarg => simp only [parseResult, hopt]
  | noLong k => simp only [parseResult, hopt]

theorem parseResult_eq {result : GetoptResult} (h : (ctx.parseResult result).1 = 0) :
    (ctx.parseResult result).2 = (result.assignment ctx.opts).elim ctx ctx.give := by
  unfold GetoptResult.assignment
  cases hopt : result.option ctx.opts with
  | none =>
    rw [parseResult_of_none h hopt]
    rfl
  | some found =>
    obtain ⟨i, o, on, arg⟩ := found
    rw [parseResult_of_some hopt] at h ⊢
    by_cases hret : (ctx.parseInto o o.type.parse on arg).1 = 0
    · rw [if_neg (not_not.mpr hret), Option.bind_some]
      dsimp only
      rw [o.type.parse.assignment_eq i on arg hret o.default]
      simp only [Option.elim_some, give,
        assign_of_getElem (GetoptResult.getElem_of_option hopt)]
      rfl
    · rw [if_pos hret] at h
      exact absurd h hret

theorem opts_elim_give (entry : Option (ℕ × V)) :
    (entry.elim ctx ctx.give).opts = ctx.opts := by
  cases entry with
  | none => rfl
  | some entry => exact assign_opts _ _ _

/-- A command line that parses is replayed. -/
theorem parseResults_eq {results : List GetoptResult} (h : (ctx.parseResults results).1 = 0) :
    (ctx.parseResults results).2 =
      (results.filterMap (GetoptResult.assignment ctx.opts)).foldl give ctx := by
  induction results generalizing ctx with
  | nil => rfl
  | cons result results ih =>
    unfold parseResults at h ⊢
    by_cases hret : (ctx.parseResult result).1 = 0
    · simp only [if_neg (not_not.mpr hret)] at h ⊢
      have hstep := parseResult_eq hret
      rw [ih h, hstep, opts_elim_give, List.filterMap_cons]
      cases result.assignment ctx.opts with
      | none => rfl
      | some entry => rfl
    · simp only [if_pos hret] at h
      exact absurd h hret

theorem parseInto_eq {i : ℕ} {o : ConfOption Φ V} (hget : ctx.opts[i]? = some o)
    (hunlocked : ctx.locked i = false) (parser : Parser V) (on : Bool) (arg : Option Str)
    (h : (ctx.parseInto o parser on arg).1 = 0 ∨ (ctx.parseInto o parser on arg).1 = eagain) :
    (ctx.parseInto o parser on arg).2 =
      (parser.assignment i on arg o.default).elim ctx ctx.offer := by
  have hret : (parser.run on arg (ctx.conf o.mem)).1 = 0 :=
    h.resolve_right (parser.hard on arg (ctx.conf o.mem))
  rw [parser.assignment_eq i on arg hret o.default]
  simp only [Option.elim_some, offer, hunlocked, Bool.false_eq_true, if_false,
    assign_of_getElem hget]
  rfl

/-- A file changes nothing about an option that is locked. -/
theorem elim_offer_of_locked {i : ℕ} (hlocked : ctx.locked i = true) (parser : Parser V)
    (on : Bool) (arg : Option Str) (old : V) :
    (parser.assignment i on arg old).elim ctx ctx.offer = ctx := by
  unfold Parser.assignment
  split_ifs
  · simp only [Option.elim_some, offer, hlocked, if_true]
  · rfl

theorem parseKvPair_eq {key : Str} {value : Option Str}
    (h : (ctx.parseKvPair key value).1 = 0 ∨ (ctx.parseKvPair key value).1 = eagain) :
    (ctx.parseKvPair key value).2 =
      (lineAssignment ctx.opts (key, value)).elim ctx ctx.offer := by
  unfold lineAssignment
  unfold parseKvPair at h ⊢
  cases hfind : findKey ctx.opts key with
  | none => rfl
  | some found =>
    obtain ⟨i, o, on⟩ := found
    simp only [hfind, Option.bind_some] at h ⊢
    have hget := getElem_of_findKey hfind
    cases hlocked : ctx.locked i with
    | true =>
      simp only [if_true]
      cases o.file with
      | some file => exact (elim_offer_of_locked hlocked file on value o.default).symm
      | none =>
        dsimp only
        split_ifs
        · rfl
        · exact (elim_offer_of_locked hlocked o.type.parse on value o.default).symm
    | false =>
      simp only [hlocked, Bool.false_eq_true, if_false] at h ⊢
      cases hfile : o.file with
      | some file =>
        simp only [hfile] at h
        exact parseInto_eq hget hlocked file on value h
      | none =>
        simp only [hfile] at h
        by_cases harg : o.type.hasArg ≠ value.isSome
        · rw [if_pos harg, if_pos harg]
          rfl
        · rw [if_neg harg] at h ⊢
          rw [if_neg harg]
          exact parseInto_eq hget hlocked o.type.parse on value h

/-- A file that parses is replayed. -/
theorem parseEntries_eq {entries : List (Str × Option Str)}
    (h : (ctx.parseEntries entries).1 = 0) :
    (ctx.parseEntries entries).2 =
      (entries.filterMap (lineAssignment ctx.opts)).foldl offer ctx := by
  induction entries generalizing ctx with
  | nil => rfl
  | cons entry entries ih =>
    obtain ⟨key, value⟩ := entry
    unfold parseEntries at h ⊢
    by_cases hret : (ctx.parseKvPair key value).1 ≠ 0 ∧ (ctx.parseKvPair key value).1 ≠ eagain
    · simp only [if_pos hret] at h
      exact absurd h hret.1
    · simp only [if_neg hret] at h ⊢
      have hstep : (ctx.parseKvPair key value).2 = _ := parseKvPair_eq (by tauto)
      have hopts : (ctx.parseKvPair key value).2.opts = ctx.opts := by
        rw [hstep]
        cases lineAssignment ctx.opts (key, value) with
        | none => rfl
        | some entry => exact offer_opts [entry] ctx
      rw [ih h, hopts, hstep, List.filterMap_cons]
      cases lineAssignment ctx.opts (key, value) with
      | none => rfl
      | some entry => rfl

end ConfCtx

namespace ConfTable

variable {table : ConfTable Φ V} {i k : ℕ} {o p : ConfOption Φ V}

/-- Two options of a table with one field are the same. -/
theorem index_eq (ho : table.opts[i]? = some o) (hp : table.opts[k]? = some p)
    (hmem : p.mem = o.mem) : k = i := by
  have hk : k < (table.opts.map (·.mem)).length := by
    rw [List.length_map]
    exact (List.getElem?_eq_some_iff.mp hp).1
  apply (List.getElem?_inj hk table.nodup).mp
  rw [List.getElem?_map, List.getElem?_map, hp, ho]
  exact congrArg some hmem

theorem eq_of_mem (ho : o ∈ table.opts) (hp : p ∈ table.opts) (hmem : p.mem = o.mem) :
    p = o := by
  obtain ⟨i, hi⟩ := List.mem_iff_getElem?.mp ho
  obtain ⟨k, hk⟩ := List.mem_iff_getElem?.mp hp
  obtain rfl := index_eq hi hk hmem
  exact Option.some_inj.mp (hk.symm.trans hi)

variable [DecidableEq Φ] {ctx : ConfCtx Φ V}

theorem assign_conf (hopts : ctx.opts = table.opts) (ho : table.opts[i]? = some o) (k : ℕ)
    (value : V) :
    (ctx.assign k value).conf o.mem = if k = i then value else ctx.conf o.mem := by
  unfold ConfCtx.assign
  rw [hopts]
  by_cases hk : k = i
  · rw [if_pos hk, hk, ho]
    exact Function.update_self o.mem value ctx.conf
  · rw [if_neg hk]
    cases hp : table.opts[k]? with
    | none => rfl
    | some p =>
      apply Function.update_of_ne
      exact fun hmem => hk (index_eq ho hp hmem.symm)

/-- After a command line an option has the last value that it gives, and is locked if there
is one. -/
theorem give_conf (hopts : ctx.opts = table.opts) (ho : table.opts[i]? = some o)
    (log : List (ℕ × V)) :
    (log.foldl ConfCtx.give ctx).conf o.mem = (last i log).getD (ctx.conf o.mem) ∧
      (log.foldl ConfCtx.give ctx).locked i = ((last i log).isSome || ctx.locked i) := by
  induction log using List.reverseRecOn with
  | nil => exact ⟨rfl, rfl⟩
  | append_singleton log entry ih =>
    obtain ⟨hconf, hlocked⟩ := ih
    have hstill := (ConfCtx.give_opts log ctx).trans hopts
    rw [List.foldl_append, last_concat]
    constructor
    · refine (assign_conf hstill ho entry.1 entry.2).trans ?_
      split_ifs
      · rfl
      · exact hconf
    · change Function.update (ConfCtx.assign _ _ _).locked entry.1 true i = _
      rw [ConfCtx.assign_locked]
      by_cases hentry : entry.1 = i
      · rw [hentry, Function.update_self, if_pos rfl]
        rfl
      · rw [Function.update_of_ne (Ne.symm hentry), if_neg hentry]
        exact hlocked

/-- After a file an option that is not locked has the last value that it gives. -/
theorem offer_conf (hopts : ctx.opts = table.opts) (ho : table.opts[i]? = some o)
    (log : List (ℕ × V)) :
    (log.foldl ConfCtx.offer ctx).conf o.mem =
      if ctx.locked i then ctx.conf o.mem else (last i log).getD (ctx.conf o.mem) := by
  induction log using List.reverseRecOn with
  | nil =>
    split_ifs
    · rfl
    · rfl
  | append_singleton log entry ih =>
    have hstill := (ConfCtx.offer_opts log ctx).trans hopts
    have hlocked := ConfCtx.offer_locked log ctx
    rw [List.foldl_append, last_concat]
    revert ih hstill hlocked
    generalize log.foldl ConfCtx.offer ctx = mid
    intro ih hstill hlocked
    change (ConfCtx.offer mid entry).conf o.mem = _
    unfold ConfCtx.offer
    rw [hlocked]
    by_cases hentry : entry.1 = i
    · rw [hentry, if_pos rfl]
      cases hlock : ctx.locked i with
      | true => simpa [hlock] using ih
      | false =>
        simp only [Bool.false_eq_true, if_false, Option.getD_some]
        rw [assign_conf hstill ho, if_pos rfl]
    · rw [if_neg hentry, ← ih]
      split_ifs
      · rfl
      · rw [assign_conf hstill ho, if_neg hentry]

end ConfTable

end Faceplate.Conf
