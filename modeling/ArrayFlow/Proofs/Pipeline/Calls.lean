import ArrayFlow.Proofs.Pipeline.Walk
import ArrayFlow.Pipeline.Strategy

/-!
# Which functions a walk calls, and when

A batch walks its inputs lazily and fused: one input at a time, in ascending order, through the
stages from the first on, and into the terminal operation before the next input is looked at.
What that means for the functions a pipeline is given can be seen by letting each of them
**announce** its calls. A pure stage or terminal function that announces
(`ArrayFlow.PureStage.announce`, `ArrayFlow.PureStage.announceTerminal`) first performs `note c`
for the call `c` it is answering (`ArrayFlow.Call`), in any monad, and then answers as the pure
function does. A walk of such
functions is then exactly a sequence of announcements followed by an answer, and the sequence
says which calls were made, on what, and in which order.

* `ArrayFlow.PureStage.stageCalls` – **the calls on one input**: in order of position, the stage
  at position `k` is called once, on the element as it reaches it, whenever the element passed
  every filter before `k` (`ArrayFlow.PureStage.reach`), and never otherwise;
* `ArrayFlow.PureStage.pass_announceAll` – passing one input through an announcing chain makes
  exactly those calls;
* `ArrayFlow.PureStage.tryFold_announceAll_yield` and
  `ArrayFlow.PureStage.tryFold_announceAll_search` – a walk whose step never stops makes the calls
  of every input in turn; one whose step stops at the first decisive output makes those of the
  inputs up to that one (`ArrayFlow.PureStage.throughFirst`);
* `ArrayFlow.Stage.tryFold_append_filter` and `ArrayFlow.Stage.tryFold_append_map` – a stage
  added at the end of a chain, as `ArrayFlow.Batch.select` and `ArrayFlow.Batch.collect` add
  one, acts inside the step of the walk of the chain before it.

The main statement, `ArrayFlow.Batch.calls_of_fused_walks`, gives the calls of every terminal
operation of a batch: those of every input for the walks over the whole batch, and those of the
inputs up to the first decisive one for the searches.
-/

namespace ArrayFlow

/-- **A call** of a function given to a pipeline, with the element it is called on: the function
of the stage at a position of the chain, or the function of the terminal operation. -/
inductive Call (α : Type) where
  /-- The function of the stage at position `k`, called on `x`. -/
  | stage (k : Nat) (x : α)
  /-- The function of the terminal operation, called on `x`. -/
  | terminal (x : α)
  deriving DecidableEq, Repr

/-- The position of the stage a call is made to; `none` for the terminal function. -/
def Call.position {α : Type} : Call α → Option Nat
  | .stage k _ => some k
  | .terminal _ => none

namespace Stage

variable {m : Type → Type} [Monad m] [LawfulMonad m] {α β : Type}

/-! ### Stages added at the end -/

/-- Passing an input through two chains one after the other. -/
theorem pass_append (first second : List (Stage m α)) (x : α) :
    pass (first ++ second) x = pass first x >>= fun o => o.elim (pure none) (pass second) := by
  induction first generalizing x with
  | nil => simp [pass]
  | cons s rest ih =>
    cases s with
    | filter keep =>
      simp only [List.cons_append, pass, bind_assoc]
      refine bind_congr fun b => ?_
      cases b <;> simp [ih]
    | map f => simp [pass, ih]

/-- **A filter added at the end** of a chain tests each output of the chain inside the step: an
output it drops leaves the accumulator as it is. -/
theorem tryFold_append_filter (chain : List (Stage m α)) (keep : α → m Bool)
    (step : β → α → m (ForInStep β)) (xs : List α) (acc : β) :
    tryFold (chain ++ [.filter keep]) step xs acc =
      tryFold chain (fun acc y => do if ← keep y then step acc y else pure (.yield acc)) xs
        acc := by
  induction xs generalizing acc with
  | nil => rfl
  | cons x xs ih =>
    have ih' := funext ih
    rw [tryFold_cons, tryFold_cons, pass_append, bind_assoc]
    refine bind_congr fun o => ?_
    cases o with
    | none => simp [ih]
    | some y =>
      simp only [Option.elim_some, pass, bind_assoc]
      refine bind_congr fun b => ?_
      cases b <;> simp [ih']

/-- **A map added at the end** of a chain hands the step the image of each output. -/
theorem tryFold_append_map (chain : List (Stage m α)) (f : α → m α)
    (step : β → α → m (ForInStep β)) (xs : List α) (acc : β) :
    tryFold (chain ++ [.map f]) step xs acc =
      tryFold chain (fun acc y => do step acc (← f y)) xs acc := by
  induction xs generalizing acc with
  | nil => rfl
  | cons x xs ih =>
    have ih' := funext ih
    rw [tryFold_cons, tryFold_cons, pass_append, bind_assoc]
    refine bind_congr fun o => ?_
    cases o with
    | none => simp [ih]
    | some y => simp [pass, ih']

end Stage

namespace PureStage

variable {α : Type}

/-! ### The calls on one input -/

/-- The element as it reaches the stage at position `k` of a chain: `none` when a filter before
that stage drops it. Past the last stage this is the output of the chain. -/
def reach (cs : List (PureStage α)) (k : Nat) (x : α) : Option α :=
  (outputs (cs.take k) [x]).head?

/-- **The calls a chain makes on one input**, its stages numbered from `k`: in order of
position, each stage the element reaches is called once, on the element as it reaches it. -/
def stageCalls (k : Nat) (cs : List (PureStage α)) (x : α) : List (Call α) :=
  (List.range cs.length).filterMap fun j => (reach cs j x).map (Call.stage (k + j))

/-- The calls of a walk on one input when the terminal function is called on every output: the
calls of the chain, then the terminal call on the output, if there is one. -/
def visit (cs : List (PureStage α)) (x : α) : List (Call α) :=
  stageCalls 0 cs x ++ (outputs cs [x]).map Call.terminal

/-- The inputs of a search up to and including the first whose output `d` accepts; all of them
when there is none. -/
def throughFirst (cs : List (PureStage α)) (d : α → Bool) (xs : List α) : List α :=
  xs.take (xs.findIdx (fun x => (outputs cs [x]).any d) + 1)

@[simp] theorem reach_zero (cs : List (PureStage α)) (x : α) : reach cs 0 x = some x := rfl

@[simp] theorem reach_filter_succ (keep : α → Bool) (rest : List (PureStage α)) (j : Nat)
    (x : α) : reach (.filter keep :: rest) (j + 1) x = if keep x then reach rest j x else none := by
  cases h : keep x <;> simp [reach, outputs, List.filter, h]

@[simp] theorem reach_map_succ (f : α → α) (rest : List (PureStage α)) (j : Nat) (x : α) :
    reach (.map f :: rest) (j + 1) x = reach rest j (f x) :=
  rfl

@[simp] theorem stageCalls_nil (k : Nat) (x : α) :
    stageCalls k ([] : List (PureStage α)) x = [] :=
  rfl

/-- A filter is called, and the later stages only if it keeps the element. -/
theorem stageCalls_filter (k : Nat) (keep : α → Bool) (rest : List (PureStage α)) (x : α) :
    stageCalls k (.filter keep :: rest) x =
      .stage k x :: if keep x then stageCalls (k + 1) rest x else [] := by
  simp only [stageCalls, List.length_cons, List.range_succ_eq_map, List.filterMap_cons,
    List.filterMap_map, Function.comp_def, reach_zero, reach_filter_succ]
  cases keep x <;> simp [Nat.add_comm, Nat.add_left_comm]

/-- A map is called, and the later stages on its image. -/
theorem stageCalls_map (k : Nat) (f : α → α) (rest : List (PureStage α)) (x : α) :
    stageCalls k (.map f :: rest) x = .stage k x :: stageCalls (k + 1) rest (f x) := by
  simp only [stageCalls, List.length_cons, List.range_succ_eq_map, List.filterMap_cons,
    List.filterMap_map, Function.comp_def, reach_zero, reach_map_succ]
  simp [Nat.add_comm, Nat.add_left_comm]

/-- One input has at most one output. -/
theorem outputs_singleton_cases (cs : List (PureStage α)) (x : α) :
    outputs cs [x] = [] ∨ ∃ y, outputs cs [x] = [y] := by
  induction cs generalizing x with
  | nil => exact .inr ⟨x, rfl⟩
  | cons s rest ih =>
    cases s with
    | filter keep =>
      cases h : keep x
      · exact .inl (by simp [outputs, List.filter, h])
      · simpa [outputs, List.filter, h] using ih x
    | map f => simpa [outputs] using ih (f x)

theorem outputs_cons (cs : List (PureStage α)) (x : α) (xs : List α) :
    outputs cs (x :: xs) = outputs cs [x] ++ outputs cs xs :=
  outputs_append cs [x] xs

/-! ### Counting calls -/

/-- **How often a stage is called on one input**: once when the element reaches it, never
otherwise. -/
theorem countP_stageCalls (cs : List (PureStage α)) (x : α) {k : Nat} (hk : k < cs.length) :
    (stageCalls 0 cs x).countP (·.position == some k) = if (reach cs k x).isSome then 1 else 0 := by
  rw [stageCalls, List.countP_filterMap]
  have hpos : ∀ j,
      (((reach cs j x).map (Call.stage (0 + j))).map (·.position == some k)).getD false =
        (j == k && (reach cs k x).isSome) := by
    intro j
    by_cases hj : j = k
    · subst hj; cases reach cs j x <;> simp [Call.position]
    · cases reach cs j x <;> simp [Call.position, hj]
  simp only [hpos]
  cases (reach cs k x).isSome
  · simp
  · simpa [List.count, hk] using List.count_range (a := k) (n := cs.length)

/-- No call of a chain is a terminal call. -/
theorem countP_stageCalls_terminal (k : Nat) (cs : List (PureStage α)) (x : α) :
    (stageCalls k cs x).countP (·.position == none) = 0 := by
  rw [stageCalls, List.countP_filterMap]
  refine List.countP_eq_zero.mpr fun j _ => ?_
  cases reach cs j x <;> simp [Call.position]

/-- **The call count of a stage**: over any inputs, the stage at position `k` is called once for
each input that reaches it. -/
theorem countP_visit_stage (cs : List (PureStage α)) (xs : List α) {k : Nat}
    (hk : k < cs.length) :
    (xs.flatMap (visit cs)).countP (·.position == some k) =
      xs.countP fun x => (reach cs k x).isSome := by
  induction xs with
  | nil => rfl
  | cons x xs ih =>
    have hterm : ((outputs cs [x]).map Call.terminal).countP (·.position == some k) = 0 :=
      List.countP_eq_zero.mpr fun c hc => by
        obtain ⟨y, -, rfl⟩ := List.mem_map.mp hc
        simp [Call.position]
    rw [List.flatMap_cons, List.countP_append, visit, List.countP_append, hterm,
      countP_stageCalls cs x hk, ih, List.countP_cons]
    omega

/-- **The call count of the terminal function**: over any inputs, once for each output. -/
theorem countP_visit_terminal (cs : List (PureStage α)) (xs : List α) :
    (xs.flatMap (visit cs)).countP (·.position == none) = (outputs cs xs).length := by
  induction xs with
  | nil => simp
  | cons x xs ih =>
    have hterm : ((outputs cs [x]).map Call.terminal).countP (·.position == none) =
        (outputs cs [x]).length :=
      (List.countP_eq_length.mpr fun c hc => by
        obtain ⟨y, -, rfl⟩ := List.mem_map.mp hc
        simp [Call.position]).trans (List.length_map _)
    rw [List.flatMap_cons, List.countP_append, visit, List.countP_append, hterm,
      countP_stageCalls_terminal, ih, outputs_cons cs x xs, List.length_append]
    omega

/-! ### Announcing chains -/

section Announcing

variable {m : Type → Type} [Monad m] {β γ : Type}

/-- The stage at position `k`, announcing each call by `note` before answering as the pure stage
does. -/
def announce (note : Call α → m Unit) (k : Nat) : PureStage α → Stage m α
  | .filter keep => .filter fun x => do note (.stage k x); pure (keep x)
  | .map f => .map fun x => do note (.stage k x); pure (f x)

/-- A chain of pure stages, numbered from `k`, each announcing its calls. -/
def announceAll (note : Call α → m Unit) : Nat → List (PureStage α) → List (Stage m α)
  | _, [] => []
  | k, s :: rest => announce note k s :: announceAll note (k + 1) rest

/-- A terminal function announcing each call by `note` before answering as `f` does. -/
def announceTerminal (note : Call α → m Unit) (f : α → γ) (y : α) : m γ := do
  note (.terminal y)
  pure (f y)

/-- A stage announcing its calls, added at the end of an announcing chain, takes the next
position. -/
theorem announceAll_concat (note : Call α → m Unit) (k : Nat) (cs : List (PureStage α))
    (s : PureStage α) :
    announceAll note k (cs ++ [s]) =
      announceAll note k cs ++ [announce note (k + cs.length) s] := by
  induction cs generalizing k with
  | nil => rfl
  | cons c rest ih =>
    simp only [List.cons_append, announceAll, ih, List.length_cons, List.cons.injEq, true_and]
    rw [Nat.add_assoc, Nat.add_comm 1]

variable [LawfulMonad m]

/-- **One input through an announcing chain** makes exactly the calls of the chain on it, then
answers with its output. -/
theorem pass_announceAll (note : Call α → m Unit) (cs : List (PureStage α)) (k : Nat) (x : α) :
    Stage.pass (announceAll note k cs) x =
      (do (stageCalls k cs x).forM note; pure (outputs cs [x]).head?) := by
  induction cs generalizing k x with
  | nil => simp [announceAll, Stage.pass, outputs]
  | cons s rest ih =>
    cases s with
    | filter keep =>
      cases h : keep x
      · simp [announceAll, announce, Stage.pass, stageCalls_filter, h, outputs, List.filter]
      · simp [announceAll, announce, Stage.pass, stageCalls_filter, h, outputs, List.filter, ih]
    | map f => simp [announceAll, announce, Stage.pass, stageCalls_map, outputs, ih]

/-- The calls of a walk on one input when its step makes the calls `after y` on each output. -/
def callsThrough (cs : List (PureStage α)) (after : α → List (Call α)) (x : α) : List (Call α) :=
  stageCalls 0 cs x ++ (outputs cs [x]).flatMap after

theorem callsThrough_terminal (cs : List (PureStage α)) :
    callsThrough cs (fun y => [.terminal y]) = visit cs := by
  funext x
  rcases outputs_singleton_cases cs x with h | ⟨y, h⟩ <;> simp [callsThrough, visit, h]

/-- **A walk whose step never stops** makes, input after input, the calls of the chain on it and
then the step's calls on its output. -/
theorem tryFold_announceAll_yield (note : Call α → m Unit) (cs : List (PureStage α))
    (after : α → List (Call α)) (f : β → α → β) {step : β → α → m (ForInStep β)}
    (hstep : ∀ acc y, step acc y = (do (after y).forM note; pure (.yield (f acc y))))
    (xs : List α) (acc : β) :
    Stage.tryFold (announceAll note 0 cs) step xs acc =
      (do (xs.flatMap (callsThrough cs after)).forM note
          pure (.yield ((outputs cs xs).foldl f acc))) := by
  induction xs generalizing acc with
  | nil => simp [Stage.tryFold]
  | cons x xs ih =>
    rw [Stage.tryFold_cons, pass_announceAll, outputs_cons cs x xs]
    rcases outputs_singleton_cases cs x with h | ⟨y, h⟩
    · simp [callsThrough, h, ih]
    · simp [callsThrough, h, ih, hstep]

/-- **A walk whose step stops at the first output `d` accepts** makes the calls of the inputs up to
and including the one with that output, and of all inputs when there is none. -/
theorem tryFold_announceAll_search (note : Call α → m Unit) (cs : List (PureStage α))
    (after : α → List (Call α)) (d : α → Bool) (hit : α → β) (miss : β)
    {step : β → α → m (ForInStep β)}
    (hstep : ∀ acc y, step acc y = (do
      (after y).forM note
      if d y then pure (.done (hit y)) else pure (.yield miss)))
    (xs : List α) :
    Stage.tryFold (announceAll note 0 cs) step xs miss =
      (do ((throughFirst cs d xs).flatMap (callsThrough cs after)).forM note
          pure (((outputs cs xs).find? d).elim (.yield miss) fun y => .done (hit y))) := by
  induction xs with
  | nil => simp [throughFirst, Stage.tryFold]
  | cons x xs ih =>
    rw [Stage.tryFold_cons, pass_announceAll, outputs_cons cs x xs]
    rcases outputs_singleton_cases cs x with h | ⟨y, h⟩
    · -- a dropped input decides nothing: its stage calls, then the rest of the walk
      simp [throughFirst, List.findIdx_cons, h, callsThrough, ih]
    · cases hd : d y
      · simp [throughFirst, List.findIdx_cons, h, callsThrough, hstep, hd, ih]
      · simp [throughFirst, List.findIdx_cons, h, callsThrough, hstep, hd]

end Announcing

end PureStage

namespace Batch

open PureStage

variable {m : Type → Type} [Monad m] [LawfulMonad m] {α β κ : Type}
variable {note : Call α → m Unit} {cs : List (PureStage α)} {b : Batch m α}

/-! ### The terminal operations of a batch -/

/-- A fold whose walk makes some calls and goes through answers after those calls. -/
theorem fold_of_tryFold {init r : β} {g : β → α → m β} {calls : List (Call α)}
    (h : b.tryFold init (fun acc y => do pure (.yield (← g acc y))) =
      (do calls.forM note; pure (.yield r))) :
    b.fold init g = (do calls.forM note; pure r) := by
  unfold Batch.fold
  rw [h]
  simp

/-- **Folding an announcing batch** with a step that makes the calls `after y` makes the calls of
every input in turn. -/
theorem fold_announceAll (hb : b.chain = announceAll note 0 cs) (after : α → List (Call α))
    (f : β → α → β) {g : β → α → m β}
    (hg : ∀ acc y, g acc y = (do (after y).forM note; pure (f acc y))) (init : β) :
    b.fold init g =
      (do (b.inputs.flatMap (callsThrough cs after)).forM note
          pure ((outputs cs b.inputs).foldl f init)) := by
  refine fold_of_tryFold ?_
  rw [Batch.tryFold, hb]
  exact tryFold_announceAll_yield note cs after f (by simp [hg]) b.inputs init

/-- The outputs of a batch whose walk, gathering them, makes some calls. -/
theorem toList_of_tryFold {calls : List (Call α)} {r : List α}
    (h : Stage.tryFold b.chain (fun acc y => pure (.yield (y :: acc))) b.inputs [] =
      (do calls.forM note; pure (.yield r))) :
    b.toList = (do calls.forM note; pure r.reverse) := by
  have hwalk : b.tryFold [] (fun acc y => do pure (.yield (← pure (y :: acc)))) =
      (do calls.forM note; pure (.yield r)) := by
    simpa [Batch.tryFold] using h
  simp [Batch.toList, fold_of_tryFold hwalk]

/-- Folding an announcing batch with a terminal function called on every output. -/
theorem fold_visit (hb : b.chain = announceAll note 0 cs) (f : β → α → β) {g : β → α → m β}
    (hg : ∀ acc y, g acc y = (do note (.terminal y); pure (f acc y))) (init : β) :
    b.fold init g =
      (do (b.inputs.flatMap (visit cs)).forM note; pure ((outputs cs b.inputs).foldl f init)) := by
  rw [fold_announceAll hb (fun y => [.terminal y]) f (by simp [hg]) init, callsThrough_terminal]

/-- **A search of an announcing batch** whose step calls the terminal function on each output and
stops at the first one `d` accepts. -/
theorem tryFold_visit_search (hb : b.chain = announceAll note 0 cs) (d : α → Bool) (hit : α → β)
    (miss : β) {step : β → α → m (ForInStep β)}
    (hstep : ∀ acc y, step acc y = (do
      note (.terminal y)
      if d y then pure (.done (hit y)) else pure (.yield miss))) :
    b.tryFold miss step =
      (do ((throughFirst cs d b.inputs).flatMap (visit cs)).forM note
          pure (((outputs cs b.inputs).find? d).elim (.yield miss) fun y => .done (hit y))) := by
  rw [Batch.tryFold, hb,
    tryFold_announceAll_search note cs (fun y => [.terminal y]) d hit miss (by simp [hstep]),
    callsThrough_terminal]

/-- Running a procedure on every output: the procedure is called on each, in turn. -/
theorem forEach_visit (hb : b.chain = announceAll note 0 cs) :
    b.forEach (fun y => note (.terminal y)) = (b.inputs.flatMap (visit cs)).forM note := by
  rw [Batch.forEach, fold_visit hb (fun _ _ => ()) (by simp) ()]
  simp

theorem count_visit (hb : b.chain = announceAll note 0 cs) (p : α → Bool) :
    b.count (announceTerminal note p) =
      (do (b.inputs.flatMap (visit cs)).forM note
          pure ((outputs cs b.inputs).foldl (fun n y => if p y then n + 1 else n) 0)) :=
  fold_visit hb _ (by simp [announceTerminal]) 0

/-- The outputs of an announcing batch: only the stages are called. -/
theorem toList_announceAll (hb : b.chain = announceAll note 0 cs) :
    b.toList = (do (b.inputs.flatMap (stageCalls 0 cs)).forM note; pure (outputs cs b.inputs)) := by
  have hcalls : callsThrough cs (fun _ => []) = stageCalls 0 cs := by
    funext x
    simp [callsThrough]
  simp only [Batch.toList]
  rw [fold_announceAll hb (fun _ => []) (fun acc y => y :: acc) (by simp) [], hcalls]
  simp

/-- The task of `ArrayFlow.Strategy.distinct` on an announcing batch calls no function of its
own. -/
theorem distinct_task_calls [BEq α] (hb : b.chain = announceAll note 0 cs) :
    Store.firstOccurrences [] <$> b.toList =
      (do (b.inputs.flatMap (stageCalls 0 cs)).forM note
          pure (Store.firstOccurrences [] (outputs cs b.inputs))) := by
  simp [toList_announceAll hb]

/-- The task of `ArrayFlow.Strategy.groupBy` on an announcing batch calls the key on every
output. -/
theorem groupBy_task_calls [BEq κ] (hb : b.chain = announceAll note 0 cs) (key : α → κ) :
    b.fold [] (fun groups y => do pure (Strategy.gather groups (← announceTerminal note key y) y)) =
      (do (b.inputs.flatMap (visit cs)).forM note
          pure ((outputs cs b.inputs).foldl
            (fun groups y => Strategy.gather groups (key y) y) [])) :=
  fold_visit hb _ (by simp [announceTerminal]) []

/-- **Selecting** from an announcing batch: the derived filter is the terminal function, asked
inside the walk of the chain. -/
theorem toList_select_visit (hb : b.chain = announceAll note 0 cs) (p : α → Bool) :
    (b.select (announceTerminal note p)).toList =
      (do (b.inputs.flatMap (visit cs)).forM note
          pure ((outputs cs b.inputs).foldl
            (fun acc y => if p y then y :: acc else acc) []).reverse) := by
  refine toList_of_tryFold ?_
  show Stage.tryFold (b.chain ++ [.filter (announceTerminal note p)]) _ b.inputs [] = _
  rw [Stage.tryFold_append_filter, hb, tryFold_announceAll_yield note cs (fun y => [.terminal y])
    (fun acc y => if p y then y :: acc else acc) (fun acc y => by
      cases hp : p y <;> simp [announceTerminal, hp]), callsThrough_terminal]

/-- **Collecting** from an announcing batch: the derived map is the terminal function. -/
theorem toList_collect_visit (hb : b.chain = announceAll note 0 cs) (f : α → α) :
    (b.collect (announceTerminal note f)).toList =
      (do (b.inputs.flatMap (visit cs)).forM note
          pure ((outputs cs b.inputs).foldl (fun acc y => f y :: acc) []).reverse) := by
  refine toList_of_tryFold ?_
  show Stage.tryFold (b.chain ++ [.map (announceTerminal note f)]) _ b.inputs [] = _
  rw [Stage.tryFold_append_map, hb, tryFold_announceAll_yield note cs (fun y => [.terminal y])
    (fun acc y => f y :: acc)
    (fun acc y => by simp [announceTerminal]), callsThrough_terminal]

theorem anySatisfy_visit (hb : b.chain = announceAll note 0 cs) (p : α → Bool) :
    b.anySatisfy (announceTerminal note p) =
      (do ((throughFirst cs p b.inputs).flatMap (visit cs)).forM note
          pure ((outputs cs b.inputs).find? p).isSome) := by
  rw [Batch.anySatisfy, tryFold_visit_search hb p (fun _ => true) false
    (by simp [announceTerminal])]
  cases (outputs cs b.inputs).find? p <;> simp

/-- A search for an output that is refused stops at the first one. -/
theorem allSatisfy_visit (hb : b.chain = announceAll note 0 cs) (p : α → Bool) :
    b.allSatisfy (announceTerminal note p) =
      (do ((throughFirst cs (!p ·) b.inputs).flatMap (visit cs)).forM note
          pure ((outputs cs b.inputs).find? (!p ·)).isNone) := by
  rw [Batch.allSatisfy, tryFold_visit_search hb (!p ·) (fun _ => false) true
    (fun acc y => by cases hp : p y <;> simp [announceTerminal, hp])]
  cases (outputs cs b.inputs).find? (!p ·) <;> simp

theorem detect_visit (hb : b.chain = announceAll note 0 cs) (p : α → Bool) :
    b.detect (announceTerminal note p) =
      (do ((throughFirst cs p b.inputs).flatMap (visit cs)).forM note
          pure ((outputs cs b.inputs).find? p)) := by
  rw [Batch.detect, tryFold_visit_search hb p some none (by simp [announceTerminal])]
  cases (outputs cs b.inputs).find? p <;> simp

/-- **Calls of a fused walk.** Let a batch – any range of the source, such as one from
`ArrayFlow.Pipeline.split` or `ArrayFlow.Pipeline.whole` – walk a chain of pure stages that
announce their calls, numbered from `0`, and let the terminal function announce its calls too.
A batch derived by `ArrayFlow.Batch.select` or `ArrayFlow.Batch.collect` with an announcing
stage is again such a batch, its chain one stage longer. Then every terminal operation is a
sequence of calls followed by its answer, and the calls are:

* for `forEach`, `count`, `fold`, `select`, `collect` and `groupBy`, input after input in
  ascending order, the calls of the chain on it (`ArrayFlow.PureStage.stageCalls`: each stage it
  reaches, once, on the element as it reaches it) followed by the terminal call on its output,
  when it has one (`ArrayFlow.PureStage.visit`); for `distinct`, which has no terminal function,
  the calls of the chain alone;
* for `anySatisfy`, `allSatisfy` and `detect`, the same for the inputs up to and including the
  first whose output decides the search – accepted, refused, accepted – and for all inputs when
  none does (`ArrayFlow.PureStage.throughFirst`). -/
theorem calls_of_fused_walks [BEq α] [BEq κ] (hb : b.chain = announceAll note 0 cs) :
    (∀ keep : α → Bool, (b.select fun x => do note (.stage cs.length x); pure (keep x)).chain =
      announceAll note 0 (cs ++ [.filter keep])) ∧
    (∀ f : α → α, (b.collect fun x => do note (.stage cs.length x); pure (f x)).chain =
      announceAll note 0 (cs ++ [.map f])) ∧
    b.forEach (fun y => note (.terminal y)) = (b.inputs.flatMap (visit cs)).forM note ∧
    (∀ p : α → Bool, ∃ n, b.count (announceTerminal note p) =
      (do (b.inputs.flatMap (visit cs)).forM note; pure n)) ∧
    (∀ (init : β) (f : β → α → β), ∃ r,
      b.fold init (fun acc y => do note (.terminal y); pure (f acc y)) =
        (do (b.inputs.flatMap (visit cs)).forM note; pure r)) ∧
    (∀ p : α → Bool, ∃ ys, (b.select (announceTerminal note p)).toList =
      (do (b.inputs.flatMap (visit cs)).forM note; pure ys)) ∧
    (∀ f : α → α, ∃ ys, (b.collect (announceTerminal note f)).toList =
      (do (b.inputs.flatMap (visit cs)).forM note; pure ys)) ∧
    (∃ ys, Store.firstOccurrences [] <$> b.toList =
      (do (b.inputs.flatMap (stageCalls 0 cs)).forM note; pure ys)) ∧
    (∀ key : α → κ, ∃ gs,
      b.fold [] (fun groups y => do
          pure (Strategy.gather groups (← announceTerminal note key y) y)) =
        (do (b.inputs.flatMap (visit cs)).forM note; pure gs)) ∧
    (∀ p : α → Bool, ∃ r, b.anySatisfy (announceTerminal note p) =
      (do ((throughFirst cs p b.inputs).flatMap (visit cs)).forM note; pure r)) ∧
    (∀ p : α → Bool, ∃ r, b.allSatisfy (announceTerminal note p) =
      (do ((throughFirst cs (!p ·) b.inputs).flatMap (visit cs)).forM note; pure r)) ∧
    (∀ p : α → Bool, ∃ r, b.detect (announceTerminal note p) =
      (do ((throughFirst cs p b.inputs).flatMap (visit cs)).forM note; pure r)) ∧
    (∀ (xs : List α) (k : Nat), k < cs.length →
      (xs.flatMap (visit cs)).countP (·.position == some k) =
        xs.countP fun x => (reach cs k x).isSome) ∧
    (∀ xs : List α,
      (xs.flatMap (visit cs)).countP (·.position == none) = (outputs cs xs).length) := by
  refine ⟨fun keep => ?_, fun f => ?_, forEach_visit hb, fun p => ⟨_, count_visit hb p⟩,
    fun init f => ⟨_, fold_visit hb f (fun _ _ => rfl) init⟩,
    fun p => ⟨_, toList_select_visit hb p⟩, fun f => ⟨_, toList_collect_visit hb f⟩,
    ⟨_, distinct_task_calls hb⟩, fun key => ⟨_, groupBy_task_calls hb key⟩,
    fun p => ⟨_, anySatisfy_visit hb p⟩, fun p => ⟨_, allSatisfy_visit hb p⟩,
    fun p => ⟨_, detect_visit hb p⟩, fun xs _ hk => countP_visit_stage cs xs hk,
    countP_visit_terminal cs⟩
  · simp [Batch.select, hb, announceAll_concat, announce]
  · simp [Batch.collect, hb, announceAll_concat, announce]

/-- The sources `0, …, 11` through one announcing map, searched in two batches of four: the
search for `5` in `[4, 8)` stops after two inputs, and the search for an element of at least
`100` in `[0, 4)` goes through all four. -/
theorem searches_stop_within_their_batch :
    let note : Call Nat → StateM (List (Call Nat)) Unit := fun c => modify (· ++ [c])
    let middle : Batch (StateM (List (Call Nat))) Nat :=
      ⟨List.range 12, announceAll note 0 [.map id], 4, 8, by decide, by decide⟩
    let first : Batch (StateM (List (Call Nat))) Nat :=
      ⟨List.range 12, announceAll note 0 [.map id], 0, 4, by decide, by decide⟩
    ((middle.anySatisfy (announceTerminal note (· == 5))).run []).2 =
        [.stage 0 4, .terminal 4, .stage 0 5, .terminal 5] ∧
      ((first.detect (announceTerminal note (100 ≤ ·))).run []).2 =
        [.stage 0 0, .terminal 0, .stage 0 1, .terminal 1, .stage 0 2, .terminal 2,
          .stage 0 3, .terminal 3] := by
  intro note middle first
  obtain ⟨-, -, -, -, -, -, -, -, -, hany, -, -, -, -⟩ :=
    calls_of_fused_walks (β := Nat) (κ := Nat) (b := middle) rfl
  obtain ⟨-, -, -, -, -, -, -, -, -, -, -, hdetect, -, -⟩ :=
    calls_of_fused_walks (β := Nat) (κ := Nat) (b := first) rfl
  obtain ⟨r, hr⟩ := hany (· == 5)
  obtain ⟨r', hr'⟩ := hdetect (100 ≤ ·)
  rw [hr, hr']
  exact ⟨rfl, rfl⟩

end Batch

end ArrayFlow
