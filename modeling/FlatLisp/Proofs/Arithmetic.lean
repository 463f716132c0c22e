import FlatLisp.Builtin.Call

/-!
Arithmetic on argument lists. A builtin of arithmetic walks its arguments from
left to right. What it has to do is said here without its help: the running
total is an integer of any size as long as only integers went into it, and a
floating-point number from then on, and an argument is an obstacle if it is no
number, or if it is an integer and the running total is one too and the exact
result does not exist or does not fit into 64 bits. The call fails at the first
obstacle, and gives the total if there is none.

The step is `Operation.onNumbers_spec`, one argument more. The walk follows by
induction on the arguments that are left.
-/

namespace FlatLisp

inductive Operation where
  | add
  | sub
  | mul
  | div
  deriving DecidableEq, Repr

/-- A running total: an exact integer, whatever its size, or a floating-point
number. -/
inductive Total where
  | exact (i : Int)
  | float (x : Binary64)
  deriving DecidableEq, Repr

namespace Total

def ofNumber : Number → Total
  | .integer i => .exact i.toInt
  | .float x => .float x

def toFloat : Total → Binary64
  | .exact i => .ofInt i
  | .float x => x

theorem ofNumber_eq_exact_iff {value : Number} {a : Int} :
    ofNumber value = .exact a ↔ ∃ i, value = .integer i ∧ i.toInt = a := by
  cases value <;> simp [ofNumber]

end Total

namespace Operation

def builtin : Operation → Builtin
  | .add => .add
  | .sub => .sub
  | .mul => .mul
  | .div => .div

def onNumbers : Operation → Number → Number → Except ArithmeticFault Number
  | .add => Number.add
  | .sub => Number.sub
  | .mul => Number.mul
  | .div => Number.div

/-- An operation on integers of any size. A quotient is rounded toward zero. -/
def onIntegers : Operation → Int → Int → Int
  | .add, a, b => a + b
  | .sub, a, b => a - b
  | .mul, a, b => a * b
  | .div, a, b => a.tdiv b

def onFloats : Operation → Binary64 → Binary64 → Binary64
  | .add => Binary64.add
  | .sub => Binary64.sub
  | .mul => Binary64.mul
  | .div => Binary64.div

def step (op : Operation) : Total → Number → Total
  | .exact a, .integer b => .exact (op.onIntegers a b.toInt)
  | total, value => .float (op.onFloats total.toFloat value.toFloat)

/-- The total of numbers from left to right, if there are any. -/
def total (op : Operation) : List Number → Option Total
  | [] => none
  | first :: rest => some (rest.foldl op.step (.ofNumber first))

/-- Why an argument cannot be added to the numbers before it. -/
inductive Obstacle (op : Operation) (before : List Number) : Value → Fault → Prop where
  | notNumber {argument : Value} (h : ∀ value, argument ≠ .number value) :
      Obstacle op before argument (.invalidArgument argument .number)
  | overflow {a : Int} {b : Int64} (htotal : op.total before = some (.exact a))
      (hrange : ¬ Number.InRange (op.onIntegers a b.toInt)) :
      Obstacle op before (.integer b) (.arithmetic .overflow)
  | divisionByZero {a : Int} (htotal : op.total before = some (.exact a)) (hop : op = .div) :
      Obstacle op before (.integer 0) (.arithmetic .divisionByZero)

/-- An obstacle at a place of an argument list, with numbers only before it. -/
def ObstacleAt (op : Operation) (arguments : List Value) (i : Nat) (fault : Fault) : Prop :=
  ∃ before argument, arguments.take i = before.map .number ∧ arguments[i]? = some argument ∧
    Obstacle op before argument fault

def ClearUpTo (op : Operation) (arguments : List Value) (i : Nat) : Prop :=
  ∀ j < i, ∀ fault, ¬ op.ObstacleAt arguments j fault

theorem map_number_inj {numbers others : List Number} :
    numbers.map Value.number = others.map .number ↔ numbers = others :=
  List.map_inj_right fun _ _ => Value.number.inj

/-- On integers an operation is exact and then has to fit; the one thing that
stops it before is a division by zero. -/
theorem onNumbers_integer (op : Operation) (a b : Int64) :
    op.onNumbers (.integer a) (.integer b) =
      if op = .div ∧ b = 0 then .error .divisionByZero
      else Number.exact (op.onIntegers a.toInt b.toInt) := by
  cases op with
  | div =>
      simp only [onNumbers, Number.div, onIntegers, true_and]
  | _ => rfl

/-- As soon as one of two numbers is a floating-point number, the operation is
that of floating-point numbers and always has a result. -/
theorem onNumbers_float (op : Operation) {a b : Number}
    (h : ∀ i j, ¬ (a = .integer i ∧ b = .integer j)) :
    op.onNumbers a b = .ok (.float (op.onFloats a.toFloat b.toFloat)) := by
  cases a with
  | float x => cases op <;> rfl
  | integer i =>
      cases b with
      | float y => cases op <;> rfl
      | integer j => exact absurd ⟨rfl, rfl⟩ (h i j)

theorem step_float {op : Operation} {a b : Number}
    (h : ∀ i j, ¬ (a = .integer i ∧ b = .integer j)) :
    op.step (.ofNumber a) b = .float (op.onFloats a.toFloat b.toFloat) := by
  cases a with
  | float x => rfl
  | integer i =>
      cases b with
      | float y => rfl
      | integer j => exact absurd ⟨rfl, rfl⟩ (h i j)

/-- A total grows by one step for each number, so the walk along the arguments
can be followed from left to right. -/
theorem total_append (op : Operation) {before : List Number} {total : Total}
    (h : op.total before = some total) (value : Number) :
    op.total (before ++ [value]) = some (op.step total value) := by
  cases before with
  | nil => cases h
  | cons first rest =>
      obtain rfl : rest.foldl op.step (.ofNumber first) = total := Option.some.inj h
      rw [List.cons_append, Operation.total, List.foldl_append]
      rfl

/-- A number is an obstacle only if it is an integer behind integers. -/
theorem Obstacle.exists_exact {op : Operation} {before : List Number} {value : Number}
    {fault : Fault} (h : Obstacle op before (.number value) fault) :
    ∃ a b, op.total before = some (.exact a) ∧ value = .integer b := by
  cases h with
  | notNumber hnumber => exact absurd rfl (hnumber value)
  | overflow htotal _ => exact ⟨_, _, htotal, rfl⟩
  | divisionByZero htotal _ => exact ⟨_, _, htotal, rfl⟩

/-- An integer is no obstacle if the exact result fits and is not a division by
zero. -/
theorem not_obstacle_of_inRange {op : Operation} {before : List Number} {a : Int} {b : Int64}
    (htotal : op.total before = some (.exact a)) (hzero : ¬ (op = .div ∧ b = 0))
    (hrange : Number.InRange (op.onIntegers a b.toInt)) (fault : Fault) :
    ¬ Obstacle op before (.integer b) fault := by
  intro h
  cases h with
  | notNumber hnumber => exact hnumber _ rfl
  | overflow hother hout =>
      cases htotal.symm.trans hother
      exact hout hrange
  | divisionByZero _ hop => exact hzero ⟨hop, rfl⟩

/-- One number more: it is taken into the total, or it is an obstacle. -/
theorem onNumbers_spec (op : Operation) {before : List Number} {start : Number}
    (h : op.total before = some (.ofNumber start)) (value : Number) :
    match op.onNumbers start value with
    | .ok next => op.total (before ++ [value]) = some (.ofNumber next) ∧
        ∀ fault, ¬ Obstacle op before (.number value) fault
    | .error fault => Obstacle op before (.number value) (.arithmetic fault) := by
  by_cases hintegers : ∃ i j, start = .integer i ∧ value = .integer j
  · obtain ⟨a, b, rfl, rfl⟩ := hintegers
    rw [onNumbers_integer]
    by_cases hzero : op = .div ∧ b = 0
    · obtain ⟨hop, rfl⟩ := hzero
      rw [if_pos ⟨hop, rfl⟩]
      exact .divisionByZero h hop
    · rw [if_neg hzero, Number.exact]
      by_cases hrange : Number.InRange (op.onIntegers a.toInt b.toInt)
      · rw [if_pos hrange]
        refine ⟨?_, not_obstacle_of_inRange h hzero hrange⟩
        rw [op.total_append h]
        simp only [Total.ofNumber, step, Number.toInt_ofInt_of_inRange hrange]
      · rw [if_neg hrange]
        exact .overflow h hrange
  · have hfloat : ∀ i j, ¬ (start = .integer i ∧ value = .integer j) := fun i j hboth =>
      hintegers ⟨i, j, hboth⟩
    rw [op.onNumbers_float hfloat]
    constructor
    · rw [op.total_append h, step_float hfloat]
      rfl
    · intro fault hobstacle
      obtain ⟨a, b, htotal, rfl⟩ := hobstacle.exists_exact
      cases start with
      | integer i => exact hfloat i b ⟨rfl, rfl⟩
      | float x => cases h.symm.trans htotal

section

variable {op : Operation} {arguments : List Value} {before : List Number} {i : Nat}

/-- The numbers before a place are determined by the argument list. -/
theorem obstacleAt_iff {argument : Value} {rest : List Value} {fault : Fault} :
    op.ObstacleAt (before.map .number ++ argument :: rest) before.length fault ↔
      Obstacle op before argument fault := by
  have htake : (before.map Value.number ++ argument :: rest).take before.length =
      before.map .number := by
    simp
  have hget : (before.map Value.number ++ argument :: rest)[before.length]? = some argument := by
    simp
  constructor
  · rintro ⟨others, found, hothers, hfound, hobstacle⟩
    obtain rfl : before = others := map_number_inj.mp (htake.symm.trans hothers)
    obtain rfl : argument = found := Option.some.inj (hget.symm.trans hfound)
    exact hobstacle
  · intro hobstacle
    exact ⟨before, argument, htake, hget, hobstacle⟩

theorem ClearUpTo.succ (h : op.ClearUpTo arguments i)
    (hnext : ∀ fault, ¬ op.ObstacleAt arguments i fault) : op.ClearUpTo arguments (i + 1) := by
  intro j hj fault
  rcases Nat.lt_succ_iff_lt_or_eq.mp hj with hj | rfl
  · exact h j hj fault
  · exact hnext fault

/-- What a walk along an argument list has to come to. -/
def Walked (op : Operation) (arguments : List Value) : Except Fault Number → Prop
  | .ok total => op.ClearUpTo arguments arguments.length ∧ ∃ numbers,
      arguments = numbers.map .number ∧ op.total numbers = some (.ofNumber total)
  | .error fault => ∃ i, op.ObstacleAt arguments i fault ∧ op.ClearUpTo arguments i

/-- The quotient by zero is taken to be zero, so a division by zero does not
count as too large as well. -/
theorem inRange_div_zero (a : Int) : Number.InRange (div.onIntegers a (0 : Int64).toInt) := by
  simp [onIntegers, Number.InRange]

/-- An argument is an obstacle for one reason only. An overflow and a division
by zero exclude each other, because the exact quotient by zero is zero and fits.
-/
theorem Obstacle.unique {argument : Value} {fault other : Fault}
    (h : Obstacle op before argument fault) (hother : Obstacle op before argument other) :
    fault = other := by
  cases h with
  | notNumber hnumber =>
      cases hother with
      | notNumber _ => rfl
      | overflow _ _ => exact absurd rfl (hnumber _)
      | divisionByZero _ _ => exact absurd rfl (hnumber _)
  | overflow htotal hrange =>
      cases hother with
      | notNumber hnumber => exact absurd rfl (hnumber _)
      | overflow _ _ => rfl
      | divisionByZero _ hop =>
          subst hop
          exact absurd (inRange_div_zero _) hrange
  | divisionByZero htotal hop =>
      cases hother with
      | notNumber hnumber => exact absurd rfl (hnumber _)
      | overflow _ hrange =>
          subst hop
          exact absurd (inRange_div_zero _) hrange
      | divisionByZero _ _ => rfl

theorem ObstacleAt.lt_length {fault : Fault} (h : op.ObstacleAt arguments i fault) :
    i < arguments.length := by
  obtain ⟨_, _, -, hargument, -⟩ := h
  exact (List.getElem?_eq_some_iff.mp hargument).1

/-- There is at most one first obstacle. -/
theorem ObstacleAt.unique {j : Nat} {fault other : Fault} (h : op.ObstacleAt arguments i fault)
    (hclear : op.ClearUpTo arguments i) (hother : op.ObstacleAt arguments j other)
    (hotherClear : op.ClearUpTo arguments j) : fault = other := by
  obtain rfl : i = j := by
    rcases Nat.lt_trichotomy i j with hlt | heq | hlt
    · exact absurd h (hotherClear i hlt fault)
    · exact heq
    · exact absurd hother (hclear j hlt other)
  obtain ⟨before, argument, hbefore, hargument, hobstacle⟩ := h
  obtain ⟨others, found, hothers, hfound, hfault⟩ := hother
  obtain rfl : before = others := map_number_inj.mp (hbefore.symm.trans hothers)
  obtain rfl : argument = found := Option.some.inj (hargument.symm.trans hfound)
  exact hobstacle.unique hfault

/-- A walk fails with the fault of the first obstacle, and with no other: a
second obstacle without one before it would stand at the same place. -/
theorem Walked.eq_error_iff {outcome : Except Fault Number} (h : op.Walked arguments outcome)
    (fault : Fault) : outcome = .error fault ↔
      ∃ i, op.ObstacleAt arguments i fault ∧ op.ClearUpTo arguments i := by
  cases outcome with
  | error found =>
      constructor
      · rintro ⟨⟩
        exact h
      · rintro ⟨j, hobstacle, hclear⟩
        obtain ⟨i, hfound, hfoundClear⟩ := h
        rw [hfound.unique hfoundClear hobstacle hclear]
  | ok total =>
      constructor
      · rintro ⟨⟩
      · rintro ⟨i, hobstacle, -⟩
        exact absurd hobstacle (h.1 i hobstacle.lt_length fault)

/-- The rest of a walk that has come some way. The induction is on the arguments
that are left; those behind are all numbers, and their total is known. -/
theorem walked_foldlM {rest : List Value} {start : Number}
    (htotal : op.total before = some (.ofNumber start))
    (hclear : op.ClearUpTo (before.map .number ++ rest) before.length) :
    op.Walked (before.map .number ++ rest)
      (rest.foldlM (Builtin.combine op.onNumbers) start) := by
  induction rest generalizing before start with
  | nil =>
      refine ⟨?_, before, List.append_nil _, htotal⟩
      simpa using hclear
  | cons argument rest ih =>
      rw [List.foldlM_cons]
      cases argument with
      | number value =>
          have hstep := op.onNumbers_spec htotal value
          have hcombine : Builtin.combine op.onNumbers start (.number value) =
              (op.onNumbers start value).mapError .arithmetic := rfl
          rw [hcombine]
          cases hnext : op.onNumbers start value with
          | error fault =>
              rw [hnext] at hstep
              exact ⟨before.length, obstacleAt_iff.mpr hstep, hclear⟩
          | ok next =>
              rw [hnext] at hstep
              have hclear := hclear.succ fun fault hobstacle =>
                hstep.2 fault (obstacleAt_iff.mp hobstacle)
              have hmove : before.map Value.number ++ .number value :: rest =
                  (before ++ [value]).map .number ++ rest := by simp
              rw [hmove] at hclear ⊢
              exact ih hstep.1 (by simpa using hclear)
      | _ =>
          refine ⟨before.length, obstacleAt_iff.mpr (.notNumber ?_), hclear⟩
          rintro value ⟨⟩

/-- A number that comes first is no obstacle, since there is no total before
it. -/
theorem clearUpTo_one (op : Operation) (start : Number) (rest : List Value) :
    op.ClearUpTo (.number start :: rest) 1 := by
  intro j hj fault hobstacle
  obtain rfl : j = 0 := by omega
  have hfirst : Obstacle op [] (.number start) fault := obstacleAt_iff.mp hobstacle
  obtain ⟨a, b, htotal, -⟩ := hfirst.exists_exact
  cases htotal

/-- The whole walk. -/
theorem exists_walked (op : Operation) (first : Value) (rest : List Value) :
    ∃ outcome, op.Walked (first :: rest) outcome ∧
      Builtin.arithmetic op.onNumbers (first :: rest) = outcome.map .number := by
  cases first with
  | number start =>
      have hwalked : op.Walked ([start].map .number ++ rest) _ :=
        walked_foldlM rfl (op.clearUpTo_one start rest)
      refine ⟨rest.foldlM (Builtin.combine op.onNumbers) start, hwalked, ?_⟩
      change (rest.foldlM (Builtin.combine op.onNumbers) start >>= fun total =>
        pure (Value.number total)) = _
      cases rest.foldlM (Builtin.combine op.onNumbers) start <;> rfl
  | _ =>
      refine ⟨.error (.invalidArgument _ .number), ⟨0, ⟨[], _, rfl, rfl, .notNumber ?_⟩, ?_⟩, rfl⟩
      · rintro value ⟨⟩
      · intro j hj
        cases hj

end

/-- Only integers add up to an exact integer. -/
theorem foldl_step_exact_iff (op : Operation) (numbers : List Number) (start : Total) :
    (∃ a, numbers.foldl op.step start = .exact a) ↔
      (∃ a, start = .exact a) ∧ ∀ value ∈ numbers, ∃ i, value = .integer i := by
  induction numbers generalizing start with
  | nil => simp
  | cons value rest ih =>
      rw [List.foldl_cons, ih, List.forall_mem_cons, ← and_assoc]
      refine and_congr_left fun _ => ?_
      cases start <;> cases value <;> simp [step]

theorem foldl_step_integer (op : Operation) (a : Int) (integers : List Int64) :
    (integers.map Number.integer).foldl op.step (.exact a) =
      .exact (integers.foldl (fun total b => op.onIntegers total b.toInt) a) := by
  induction integers generalizing a with
  | nil => rfl
  | cons b rest ih => exact ih (op.onIntegers a b.toInt)

/-- A total is an exact integer just if all of its numbers are integers. -/
theorem total_exact_iff {op : Operation} {numbers : List Number} {total : Total}
    (h : op.total numbers = some total) :
    (∃ a, total = .exact a) ↔ ∀ value ∈ numbers, ∃ i, value = .integer i := by
  cases numbers with
  | nil => cases h
  | cons first rest =>
      obtain rfl : rest.foldl op.step (.ofNumber first) = total := Option.some.inj h
      rw [foldl_step_exact_iff, List.forall_mem_cons]
      refine and_congr_left fun _ => ?_
      cases first <;> simp [Total.ofNumber]

/-- A result is an integer just if all arguments are, since it is the total
where that fits. -/
theorem result_integer_iff {op : Operation} {numbers : List Number} {result : Number}
    (h : op.total numbers = some (.ofNumber result)) :
    (∃ i, result = .integer i) ↔
      ∀ argument ∈ numbers.map Value.number, ∃ i, argument = .integer i := by
  have hexact := total_exact_iff h
  simp only [Total.ofNumber_eq_exact_iff] at hexact
  rw [List.forall_mem_map]
  constructor
  · rintro ⟨i, rfl⟩ value hvalue
    obtain ⟨j, rfl⟩ := hexact.mp ⟨_, i, rfl, rfl⟩ value hvalue
    exact ⟨j, rfl⟩
  · intro hintegers
    have hall : ∀ value ∈ numbers, ∃ j, value = .integer j := by
      intro value hvalue
      obtain ⟨j, hj⟩ := hintegers value hvalue
      exact ⟨j, Value.number.inj hj⟩
    obtain ⟨_, i, hi, -⟩ := hexact.mpr hall
    exact ⟨i, hi⟩

theorem exists_integer_of_total {op : Operation} {first : Int64} {rest : List Int64}
    {result : Number} (h : op.total ((first :: rest).map .integer) = some (.ofNumber result)) :
    ∃ i, result = .integer i ∧
      i.toInt = rest.foldl (fun total b => op.onIntegers total b.toInt) first.toInt := by
  have hfold := op.foldl_step_integer first.toInt rest
  have hresult : Total.ofNumber result = _ := (Option.some.inj h).symm.trans hfold
  exact Total.ofNumber_eq_exact_iff.mp hresult

/-- From the first floating-point number on there is no fault of arithmetic. -/
theorem ObstacleAt.integers {op : Operation} {arguments : List Value} {i : Nat}
    {kind : ArithmeticFault} (h : op.ObstacleAt arguments i (.arithmetic kind)) :
    ∀ argument ∈ arguments.take (i + 1), ∃ j, argument = .integer j := by
  obtain ⟨before, argument, hbefore, hargument, hobstacle⟩ := h
  obtain ⟨a, b, htotal, rfl⟩ :
      ∃ a b, op.total before = some (.exact a) ∧ argument = .integer b := by
    cases hobstacle with
    | overflow htotal _ => exact ⟨_, _, htotal, rfl⟩
    | divisionByZero htotal _ => exact ⟨_, _, htotal, rfl⟩
  have hintegers := (total_exact_iff htotal).mp ⟨a, rfl⟩
  rw [List.take_add_one, hbefore, hargument]
  intro other hother
  rcases List.mem_append.mp hother with hother | hother
  · obtain ⟨value, hvalue, rfl⟩ := List.mem_map.mp hother
    obtain ⟨j, rfl⟩ := hintegers value hvalue
    exact ⟨j, rfl⟩
  · exact ⟨b, by simpa using hother⟩

end Operation

namespace Builtin

theorem sum_texts {contents : List String} (h : contents ≠ []) :
    sum (contents.map .text) = .ok (.text (String.join contents)) := by
  cases contents with
  | nil => exact absurd rfl h
  | cons first rest => rw [sum, mapM_text?_eq_some_iff.mpr rfl]

theorem sum_eq_arithmetic {arguments : List Value}
    (h : ∀ contents : List String, arguments ≠ contents.map .text) :
    sum arguments = arithmetic Number.add arguments := by
  unfold sum
  split
  next first rest hcontents => exact absurd (mapM_text?_eq_some_iff.mp hcontents) (h _)
  next => rfl

end Builtin

namespace Operation

theorem ofExcept_map_eq_error_iff {outcome : Except Fault Number} {fault : Fault}
    {session : Session} :
    Evaluation.ofExcept (outcome.map Value.number) session = .error (.failed { fault }) session ↔
      outcome = .error fault := by
  cases outcome with
  | ok total => constructor <;> rintro ⟨⟩
  | error found => constructor <;> rintro ⟨⟩ <;> rfl

/-- Apart from the joining of texts, the builtin of an operation is the walk
along its arguments. -/
theorem call_builtin (op : Operation) {arguments : List Value}
    (h : op = .add → ∀ contents : List String, arguments ≠ contents.map .text) :
    op.builtin.call arguments = .ofExcept (Builtin.arithmetic op.onNumbers arguments) := by
  cases op with
  | add =>
      rw [onNumbers, ← Builtin.sum_eq_arithmetic (h rfl)]
      rfl
  | _ => rfl

/-- A builtin of arithmetic, called with at least one argument, leaves the
session as it is. It joins texts if it adds and all arguments are texts.
Otherwise it fails at the first obstacle in its arguments and for the reason
given there; a fault of arithmetic comes up only if this argument and all before
it are integers. If there is no obstacle then all arguments are numbers, and it
gives their total. That is an integer just if all arguments are, and then it is
the result of the operations on integers without bounds. -/
theorem arithmetic_stops_at_obstacle (op : Operation) {arguments : List Value}
    (hne : arguments ≠ []) (session : Session) :
    (∀ contents : List String, op = .add → arguments = contents.map .text →
      op.builtin.call arguments session = .ok (.text (String.join contents)) session) ∧
    ((op = .add → ∀ contents : List String, arguments ≠ contents.map .text) →
      (∀ fault, op.builtin.call arguments session = .error (.failed { fault }) session ↔
        ∃ i, op.ObstacleAt arguments i fault ∧ op.ClearUpTo arguments i) ∧
      (∀ i kind, op.ObstacleAt arguments i (.arithmetic kind) →
        ∀ argument ∈ arguments.take (i + 1), ∃ j, argument = .integer j) ∧
      ((∀ i fault, ¬ op.ObstacleAt arguments i fault) →
        ∃ numbers result, arguments = numbers.map .number ∧
          op.total numbers = some (.ofNumber result) ∧
          op.builtin.call arguments session = .ok (.number result) session ∧
          ((∃ j, result = .integer j) ↔ ∀ argument ∈ arguments, ∃ j, argument = .integer j) ∧
          ∀ (first : Int64) (rest : List Int64), arguments = (first :: rest).map .integer →
            ∃ j, result = .integer j ∧
              j.toInt = rest.foldl (fun a b => op.onIntegers a b.toInt) first.toInt)) := by
  constructor
  · rintro contents rfl rfl
    have hcontents : contents ≠ [] := by
      rintro rfl
      exact hne rfl
    change Evaluation.ofExcept (Builtin.sum (contents.map .text)) session = _
    rw [Builtin.sum_texts hcontents]
    rfl
  · intro htexts
    rw [op.call_builtin htexts]
    obtain ⟨first, rest, rfl⟩ := List.exists_cons_of_ne_nil hne
    obtain ⟨outcome, hwalked, harithmetic⟩ := op.exists_walked first rest
    rw [harithmetic]
    refine ⟨fun fault => ?_, fun i kind => ObstacleAt.integers, fun hclear => ?_⟩
    · rw [← hwalked.eq_error_iff fault]
      exact ofExcept_map_eq_error_iff
    · cases outcome with
      | error found =>
          obtain ⟨i, hobstacle, -⟩ := hwalked
          exact absurd hobstacle (hclear i found)
      | ok result =>
          obtain ⟨-, numbers, harguments, htotal⟩ := hwalked
          refine ⟨numbers, result, harguments, htotal, rfl, ?_, ?_⟩
          · rw [harguments]
            exact result_integer_iff htotal
          · intro start others hintegers
            have hnumbers : numbers = (start :: others).map .integer := by
              rw [← map_number_inj, ← harguments, hintegers, List.map_map]
              rfl
            rw [hnumbers] at htotal
            exact exists_integer_of_total htotal

/-- The least integer has no opposite and nothing below it, and a step that does
not fit comes before a text that is no number. Texts alone are joined. -/
theorem arithmetic_stops_at_obstacle_least :
    let least : Int64 := -9223372036854775808
    let session := Session.start {}
    Builtin.div.call [.integer least, .integer (-1)] session =
        .error (.failed { fault := .arithmetic .overflow }) session ∧
      Builtin.sub.call [.integer least, .integer 1, .text "x"] session =
        .error (.failed { fault := .arithmetic .overflow }) session ∧
      Builtin.add.call [.text "x", .text "y"] session = .ok (.text "xy") session := by
  intro least session
  have hdiv : Operation.div.ObstacleAt [.integer least, .integer (-1)] 1
      (.arithmetic .overflow) :=
    ⟨[.integer least], _, rfl, rfl, .overflow rfl (by decide)⟩
  have hsub : Operation.sub.ObstacleAt [.integer least, .integer 1, .text "x"] 1
      (.arithmetic .overflow) :=
    ⟨[.integer least], _, rfl, rfl, .overflow rfl (by decide)⟩
  obtain ⟨-, hquotient⟩ := arithmetic_stops_at_obstacle .div
    (List.cons_ne_nil (.integer least) [.integer (-1)]) session
  obtain ⟨-, hdifference⟩ := arithmetic_stops_at_obstacle .sub
    (List.cons_ne_nil (.integer least) [.integer 1, .text "x"]) session
  obtain ⟨hjoined, -⟩ := arithmetic_stops_at_obstacle .add
    (List.cons_ne_nil (.text "x") [.text "y"]) session
  exact ⟨((hquotient nofun).1 _).mpr ⟨1, hdiv, clearUpTo_one _ _ _⟩,
    ((hdifference nofun).1 _).mpr ⟨1, hsub, clearUpTo_one _ _ _⟩,
    hjoined ["x", "y"] rfl rfl⟩

end Operation

end FlatLisp
