import TypeCatalog.Proofs.Conversions

/-!
The first problem of a call. A call looks at the number of its arguments, then at the receiver, then
at the arguments from left to right. What is wrong first is what it answers, and then nothing has
run and the receiver is as it was. A call with which nothing is wrong runs its callable once.
-/
namespace TypeCatalog

/-- The objects that a receiver lends to a callable. A method reads an object of its own type, which
may be lent for reading or for changing; a mutating method changes one that is lent for changing.
Static methods, constructors and functions have no use for an object. -/
inductive Access.Serves : Access → Receiver → Value → Prop where
  | free (r : Receiver) : Serves .none r .void
  | read {owner : TypeKey} {r : Receiver} {object : Value} (lent : r.object? = some object)
      (own : object.typeOf = owner) : Serves (.shared owner) r object
  | change {owner : TypeKey} {object : Value} (own : object.typeOf = owner) :
      Serves (.exclusive owner) (.exclusive object) object

/-- The type whose objects a callable needs, if it needs one. -/
def Access.owner? : Access → Option TypeKey
  | .none => Option.none
  | .shared owner | .exclusive owner => some owner

namespace ArgMode

/-- What an argument is taken as by a parameter, if it is taken. -/
def taken? (u : Universe) (param : TypeKey) (arg : Value) : ArgMode → Option Value
  | .exact => arg.get? param
  | .convert => coerce u arg param

/-- What is answered where an argument is not taken. -/
def refusal (u : Universe) (position : Nat) (param : TypeKey) (arg : Value) : ArgMode → QueryError
  | .exact => .typeMismatch (u.hash param) (arg.typeHash u)
  | .convert => .argumentConversion position

/-- Whether this is the first argument that is not taken. -/
structure FirstRefused (u : Universe) (mode : ArgMode) (params : List TypeKey) (args : List Value)
    (i : Nat) (param : TypeKey) (arg : Value) : Prop where
  expects : params[i]? = some param
  given : args[i]? = some arg
  refused : mode.taken? u param arg = none
  earlier : ∀ j < i, ∀ p v, params[j]? = some p → args[j]? = some v →
    (mode.taken? u p v).isSome = true

end ArgMode

/-- The first thing that is wrong with a call. -/
inductive Callable.FirstProblem (u : Universe) (c : Callable) (mode : ArgMode) (r : Receiver)
    (args : List Value) : QueryError → Prop where
  | arity (differs : args.length ≠ c.arity) :
      FirstProblem u c mode r args (.arityMismatch c.arity args.length)
  | receiver {owner : TypeKey} (counted : args.length = c.arity)
      (needed : c.access.owner? = some owner) (unserved : ∀ object, ¬ c.access.Serves r object) :
      FirstProblem u c mode r args (.missingReceiver (u.rawName owner))
  | argument {object : Value} {i : Nat} {param : TypeKey} {arg : Value}
      (counted : args.length = c.arity) (served : c.access.Serves r object)
      (first : mode.FirstRefused u c.params args i param arg) :
      FirstProblem u c mode r args (mode.refusal u i param arg)

variable {u : Universe} {mode : ArgMode}

namespace Callable

variable {c : Callable} {r : Receiver} {object : Value}

theorem takeReceiver_of_serves (served : c.access.Serves r object) :
    c.takeReceiver u r = .ok object := by
  unfold takeReceiver
  generalize c.access = access at served
  cases served with
  | free => rfl
  | @read owner _ _ lent own =>
    have found : r.read? owner = some object := by
      rw [Receiver.read?, lent, Option.filter_some, if_pos (decide_eq_true own)]
    simp only [found]
  | @change owner _ own =>
    have found : (Receiver.exclusive object).change? owner = some object := if_pos own
    simp only [found]

/-- A receiver serves, or the type of its owner is reported to be missing. -/
theorem takeReceiver_cases (u : Universe) (c : Callable) (r : Receiver) :
    (∃ object, c.takeReceiver u r = .ok object ∧ c.access.Serves r object) ∨
      ∃ owner, c.takeReceiver u r = .error (.missingReceiver (u.rawName owner)) ∧
        c.access.owner? = some owner := by
  unfold takeReceiver
  cases c.access with
  | none => exact .inl ⟨.void, rfl, .free r⟩
  | shared owner =>
    cases found : r.read? owner with
    | none => exact .inr ⟨owner, by simp only [found], rfl⟩
    | some object =>
      obtain ⟨lent, own⟩ := Option.filter_eq_some_iff.mp found
      exact .inl ⟨object, by simp only [found], .read lent (of_decide_eq_true own)⟩
  | exclusive owner =>
    cases found : r.change? owner with
    | none => exact .inr ⟨owner, by simp only [found], rfl⟩
    | some object =>
      refine .inl ⟨object, by simp only [found], ?_⟩
      unfold Receiver.change? at found
      split at found
      · obtain ⟨own, same⟩ := Option.ite_none_right_eq_some.mp found
        cases same
        exact .change own
      · cases found

end Callable

namespace ArgMode

variable {params : List TypeKey} {args : List Value} {param : TypeKey} {arg datum : Value} {i : Nat}

/-- What is taken as it is would be taken the same by a conversion. -/
theorem coerce_of_taken (taken : mode.taken? u param arg = some datum) :
    coerce u arg param = some datum := by
  cases mode with
  | exact =>
    unfold coerce
    rw [show arg.get? param = some datum from taken]
  | convert => exact taken

theorem FirstRefused.here (refused : mode.taken? u param arg = none) :
    mode.FirstRefused u (param :: params) (arg :: args) 0 param arg :=
  ⟨rfl, rfl, refused, fun _ before => absurd before (Nat.not_lt_zero _)⟩

theorem FirstRefused.later {p : TypeKey} {v : Value} (taken : mode.taken? u p v = some datum)
    (first : mode.FirstRefused u params args i param arg) :
    mode.FirstRefused u (p :: params) (v :: args) (i + 1) param arg where
  expects := first.expects
  given := first.given
  refused := first.refused
  earlier j before q w expects given := by
    cases j with
    | zero =>
      cases expects
      cases given
      rw [taken]
      rfl
    | succ j => exact first.earlier j (Nat.lt_of_succ_lt_succ before) q w expects given

end ArgMode

namespace Callable

variable {params : List TypeKey} {args : List Value} {position : Nat}

theorem takeArgument_eq (position : Nat) (param : TypeKey) (arg : Value) :
    takeArgument u mode position param arg =
      match mode.taken? u param arg with
      | some datum => .ok datum
      | none => .error (mode.refusal u position param arg) := by
  unfold takeArgument
  cases mode with
  | exact =>
    simp only [ArgMode.taken?]
    cases arg.get? param <;> rfl
  | convert =>
    simp only [ArgMode.taken?, coerce]
    cases arg.get? param <;> rfl

/-- The arguments are all taken, as what a conversion makes of them, or one of them is the first
that is not. -/
theorem takeArguments_cases (u : Universe) (mode : ArgMode) {params : List TypeKey}
    {args : List Value} (position : Nat) (counted : args.length = params.length) :
    (∃ taken, takeArguments u mode position params args = .ok taken ∧
        List.zipWith (coerce u) args params = taken.map some) ∨
      ∃ i param arg, mode.FirstRefused u params args i param arg := by
  induction params generalizing args position with
  | nil =>
    obtain rfl := List.length_eq_zero_iff.mp counted
    exact .inl ⟨[], rfl, rfl⟩
  | cons param params ih =>
    obtain ⟨arg, args, rfl⟩ := List.exists_cons_of_length_eq_add_one counted
    cases first : mode.taken? u param arg with
    | none => exact .inr ⟨0, param, arg, .here first⟩
    | some datum =>
      rcases ih (position + 1) (Nat.succ.inj counted) with ⟨taken, others, all⟩ | ⟨i, p, v, refused⟩
      · refine .inl ⟨datum :: taken, ?_, ?_⟩
        · rw [takeArguments, takeArgument_eq, first, others]
          rfl
        · rw [List.zipWith_cons_cons, ArgMode.coerce_of_taken first, all, List.map_cons]
      · exact .inr ⟨i + 1, p, v, refused.later first⟩

theorem takeArguments_of_firstRefused {i : Nat} {param : TypeKey} {arg : Value} (position : Nat)
    (first : mode.FirstRefused u params args i param arg) :
    takeArguments u mode position params args =
      .error (mode.refusal u (position + i) param arg) := by
  induction i generalizing params args position with
  | zero =>
    obtain ⟨expects, given, refused, -⟩ := first
    cases params with
    | nil => cases expects
    | cons p params =>
      cases args with
      | nil => cases given
      | cons v args =>
        cases expects
        cases given
        rw [takeArguments, takeArgument_eq, refused]
        rfl
  | succ i ih =>
    obtain ⟨expects, given, refused, earlier⟩ := first
    cases params with
    | nil => cases expects
    | cons p params =>
      cases args with
      | nil => cases given
      | cons v args =>
        obtain ⟨datum, taken⟩ := Option.isSome_iff_exists.mp
          (earlier 0 (Nat.succ_pos i) p v rfl rfl)
        have rest : mode.FirstRefused u params args i param arg :=
          ⟨expects, given, refused, fun j before => earlier (j + 1) (Nat.succ_lt_succ before)⟩
        rw [takeArguments, takeArgument_eq, taken, ih (position + 1) rest, Nat.add_right_comm,
          Nat.add_assoc]
        rfl

/-- What is wrong first is answered; the callable does not run and the receiver stays as it is. If
nothing is wrong, the callable runs exactly once, on the receiver's object and on what a conversion
makes of each argument. -/
theorem invoke_stops_at_first_problem (u : Universe) (c : Callable) (mode : ArgMode) (r : Receiver)
    (args : List Value) :
    (∀ e, c.FirstProblem u mode r args e → c.invoke u mode r args = ⟨.error e, r, []⟩) ∧
    ((∀ e, ¬ c.FirstProblem u mode r args e) →
      ∃ object taken, c.access.Serves r object ∧
        List.zipWith (coerce u) args c.params = taken.map some ∧
        c.invoke u mode r args =
          ⟨.ok (c.body object taken).result, c.leave r (c.body object taken).object,
            [⟨c.number, object, taken⟩]⟩) := by
  constructor
  · intro e problem
    have entered : c.enter u mode r args = .error e := by
      cases problem with
      | arity differs => exact if_neg differs
      | @receiver owner counted needed unserved =>
        rw [enter, if_pos counted]
        rcases takeReceiver_cases u c r with ⟨object, -, served⟩ | ⟨other, missing, own⟩
        · exact absurd served (unserved object)
        · rw [missing, Option.some.inj (own.symm.trans needed)]
          rfl
      | argument counted served first =>
        rw [enter, if_pos counted, takeReceiver_of_serves served,
          takeArguments_of_firstRefused 0 first, Nat.zero_add]
        rfl
    rw [invoke, entered]
    rfl
  · intro right
    have counted : args.length = c.arity :=
      Classical.byContradiction fun differs => right _ (.arity differs)
    rcases takeReceiver_cases u c r with ⟨object, entered, served⟩ | ⟨owner, missing, own⟩
    · rcases takeArguments_cases u mode 0 counted with ⟨taken, all, same⟩ | ⟨i, param, arg, first⟩
      · refine ⟨object, taken, served, same, ?_⟩
        rw [invoke, enter, if_pos counted, entered, all]
        rfl
      · exact absurd (.argument counted served first) (right _)
    · refine absurd (.receiver counted own fun object served => ?_) (right _)
      rw [takeReceiver_of_serves served] at missing
      cases missing

end Callable

end TypeCatalog
