import Mathlib.Algebra.Order.Ring.Nat
import Mathlib.Logic.Relation
import TypeCatalog.Call.Ancestry
import TypeCatalog.Proofs.Calls

/-!
Derivation as reachability. The search for an ancestor opens each type once: what it has opened is
seen, and the bases of what is seen are seen or pending. A type may be pending many times, but all
types that are ever pending are listed as bases of types that are opened, so the links that have not
been followed bound the steps that are left.
-/
namespace TypeCatalog

theorem TypeHash.isEmpty_iff {hash : TypeHash} : hash.isEmpty = true ↔ hash = .empty := by
  cases hash
  simp [isEmpty, empty]

section

variable {α : Type} (f : α → Nat) {p q : α → Bool} (fewer : ∀ x, q x = true → p x = true)

include fewer in
theorem sum_map_filter_le (items : List α) :
    ((items.filter q).map f).sum ≤ ((items.filter p).map f).sum := by
  induction items with
  | nil => simp
  | cons item rest ih =>
    by_cases kept : q item = true
    · simp [kept, fewer item kept, ih]
    · by_cases before : p item = true
      · simp only [List.filter_cons, kept, before, if_true, List.map_cons, List.sum_cons]
        exact Nat.le_trans ih (Nat.le_add_left _ _)
      · simp [kept, before, ih]

include fewer in
/-- The sum over fewer items is smaller by an item that is left out. -/
theorem sum_map_filter_add_le {items : List α} {x : α} (listed : x ∈ items) (before : p x = true)
    (dropped : q x = false) :
    ((items.filter q).map f).sum + f x ≤ ((items.filter p).map f).sum := by
  induction items with
  | nil => cases listed
  | cons item rest ih =>
    rcases List.mem_cons.mp listed with rfl | later
    · have others := sum_map_filter_le f fewer rest
      simp [before, dropped]
      omega
    · have others := ih later
      by_cases kept : q item = true
      · simp [kept, fewer item kept]
        omega
      · by_cases here : p item = true
        · simp [kept, here]
          omega
        · simpa [kept, here] using others

end

namespace Registry

/-- Whether a base link of the type behind a handle leads to another type, which is published. -/
def LinksTo (r : Registry) (h : TypeHandle) (link : BaseLink) (k : TypeHandle) : Prop :=
  ∃ row, r.row? h = some row ∧ link ∈ row.bases ∧ r.typeByHash? link.base = some k

/-- Whether one type is listed as a base of another. -/
def HasBase (r : Registry) (h k : TypeHandle) : Prop := ∃ link, r.LinksTo h link k

variable {r : Registry} {target : TypeHash}

theorem mem_baseTypes {h k : TypeHandle} {row : Row} (there : r.row? h = some row) :
    k ∈ r.baseTypes row ↔ r.HasBase h k := by
  simp [baseTypes, HasBase, LinksTo, there]

theorem HasBase.published (consistent : r.Consistent) {h k : TypeHandle} (base : r.HasBase h k) :
    ∃ row, r.row? k = some row := by
  obtain ⟨link, -, -, -, leads⟩ := base
  obtain ⟨row, there, -⟩ := consistent.typeByHash?_eq_some_iff.mp leads
  exact ⟨row, there⟩

/-- The links of the types that have not been opened. -/
def unfollowed (r : Registry) (seen : List TypeHash) : Nat :=
  ((r.publishedRows.filter fun (_, row) => row.typeHash ∉ seen).map fun (_, row) =>
    row.bases.length).sum

theorem unfollowed_nil (r : Registry) : r.unfollowed [] = r.linkCount := by
  simp [linkCount, unfollowed, List.sum_eq_foldr, List.foldr_map]

/-- Opening a type leaves fewer links to be followed. -/
theorem unfollowed_open {h : TypeHandle} {row : Row} (there : r.row? h = some row)
    {seen : List TypeHash} (fresh : row.typeHash ∉ seen) :
    r.unfollowed (row.typeHash :: seen) + row.bases.length ≤ r.unfollowed seen := by
  refine sum_map_filter_add_le (fun item : TypeHandle × Row => item.2.bases.length) ?_
    (mem_publishedRows.mpr there) ?_ ?_
  · simp
  · simpa using fresh
  · simp

@[simp] theorem reaches_nil (steps : Nat) (seen : List TypeHash) :
    r.reaches target steps [] seen = .nothing := by
  cases steps <;> rfl

/-- The types that are pending and the links that have not been followed are fewer after each step,
so a search that has a step for each of them comes to its end. -/
theorem reaches_finishes {steps : Nat} {pending : List TypeHandle} {seen : List TypeHash}
    (enough : pending.length + r.unfollowed seen ≤ steps) :
    r.reaches target steps pending seen ≠ .unfinished := by
  induction steps generalizing pending seen with
  | zero =>
    obtain rfl : pending = [] := List.eq_nil_of_length_eq_zero (by omega)
    simp
  | succ steps ih =>
    cases pending with
    | nil => simp
    | cons h rest =>
      rw [List.length_cons] at enough
      unfold reaches
      dsimp only
      split
      · nofun
      · split
        · exact ih (by omega)
        · rename_i fresh
          obtain ⟨filled, unseen⟩ := not_or.mp fresh
          cases there : r.row? h with
          | none => exact absurd (TypeHash.isEmpty_iff.mpr (by rw [there]; rfl)) filled
          | some row =>
            rw [there] at unseen
            have opening := r.unfollowed_open there unseen
            have few : (r.baseTypes row).length ≤ row.bases.length := List.length_filterMap_le _ _
            refine ih ?_
            simp only [Option.map_some, Option.getD_some, List.length_append, List.length_reverse]
            omega

/-- More steps make no difference to a search that has come to its end. -/
theorem reaches_add {steps : Nat} {pending : List TypeHandle} {seen : List TypeHash}
    (finished : r.reaches target steps pending seen ≠ .unfinished) (more : Nat) :
    r.reaches target (steps + more) pending seen = r.reaches target steps pending seen := by
  induction steps generalizing pending seen with
  | zero =>
    cases pending with
    | nil => simp
    | cons h rest => exact absurd rfl finished
  | succ steps ih =>
    cases pending with
    | nil => simp
    | cons h rest =>
      rw [Nat.succ_add]
      unfold reaches at finished ⊢
      dsimp only at finished ⊢
      split at finished
      · rename_i found
        rw [if_pos found, if_pos found]
      · rename_i differs
        rw [if_neg differs, if_neg differs]
        split at finished
        · rename_i skipped
          rw [if_pos skipped, if_pos skipped, ih finished]
        · rename_i fresh
          rw [if_neg fresh, if_neg fresh, ih finished]

/-- What a search step does with a published type. -/
theorem reaches_cons {steps : Nat} {h : TypeHandle} {row : Row} (there : r.row? h = some row)
    (named : row.typeHash ≠ .empty) (pending : List TypeHandle) (seen : List TypeHash) :
    r.reaches target (steps + 1) (h :: pending) seen =
      if row.typeHash = target then .found h
      else if row.typeHash ∈ seen then r.reaches target steps pending seen
      else r.reaches target steps ((r.baseTypes row).reverse ++ pending) (row.typeHash :: seen) := by
  have filled : row.typeHash.isEmpty = false := by
    rw [Bool.eq_false_iff]
    exact fun empty => named (TypeHash.isEmpty_iff.mp empty)
  simp [reaches, there, filled]

/-- Whether links lead from one of some types to a type of the hash. -/
def ReachedFrom (r : Registry) (target : TypeHash) (pending : List TypeHandle) : Prop :=
  ∃ h ∈ pending, ∃ k row,
    Relation.ReflTransGen r.HasBase h k ∧ r.row? k = some row ∧ row.typeHash = target

/-- Another type than the wanted one is reached over its bases. -/
theorem reachedFrom_open {h : TypeHandle} {own : Row} (there : r.row? h = some own)
    (differs : own.typeHash ≠ target) (rest : List TypeHandle) :
    r.ReachedFrom target ((r.baseTypes own).reverse ++ rest) ↔ r.ReachedFrom target (h :: rest) := by
  constructor
  · rintro ⟨p, member, k, row, way, found, same⟩
    rcases List.mem_append.mp member with base | other
    · have step := (mem_baseTypes there).mp (List.mem_reverse.mp base)
      exact ⟨h, List.mem_cons_self, k, row, .head step way, found, same⟩
    · exact ⟨p, List.mem_cons_of_mem h other, k, row, way, found, same⟩
  · rintro ⟨p, member, k, row, way, found, same⟩
    rcases List.mem_cons.mp member with rfl | other
    · rcases Relation.ReflTransGen.cases_head way with rfl | ⟨next, step, onwards⟩
      · cases Option.some.inj (there.symm.trans found)
        exact absurd same differs
      · have base := (mem_baseTypes there).mpr step
        exact ⟨next, by simp [base], k, row, onwards, found, same⟩
    · exact ⟨p, List.mem_append_right _ other, k, row, way, found, same⟩

/-- Whether the search has the bases of a type that has been opened. -/
def Opened (r : Registry) (target : TypeHash) (pending : List TypeHandle) (seen : List TypeHash) :
    Prop :=
  ∀ hash ∈ seen, hash ≠ target ∧ ∀ h row, r.row? h = some row → row.typeHash = hash →
    ∀ k, r.HasBase h k → k ∈ pending ∨ ∃ base, r.row? k = some base ∧ base.typeHash ∈ seen

/-- What is reached from a type that has been opened is reached from one that is pending. -/
theorem Opened.reached {pending : List TypeHandle} {seen : List TypeHash}
    (opened : r.Opened target pending seen) {h k : TypeHandle} {own row : Row}
    (there : r.row? h = some own) (listed : own.typeHash ∈ seen)
    (way : Relation.ReflTransGen r.HasBase h k) (found : r.row? k = some row)
    (same : row.typeHash = target) : ∃ p ∈ pending, Relation.ReflTransGen r.HasBase p k := by
  induction way using Relation.ReflTransGen.head_induction_on generalizing own with
  | refl =>
    cases Option.some.inj (there.symm.trans found)
    exact absurd same (opened _ listed).1
  | @head h next step rest ih =>
    rcases (opened _ listed).2 h own there rfl next step with pends | ⟨base, published, earlier⟩
    · exact ⟨next, pends, rest⟩
    · exact ih published earlier

theorem Opened.skip {pending : List TypeHandle} {seen : List TypeHash} {h : TypeHandle} {own : Row}
    (opened : r.Opened target (h :: pending) seen) (there : r.row? h = some own)
    (listed : own.typeHash ∈ seen) : r.Opened target pending seen := by
  intro hash member
  refine ⟨(opened hash member).1, fun i row present same k base => ?_⟩
  rcases (opened hash member).2 i row present same k base with pends | earlier
  · rcases List.mem_cons.mp pends with rfl | other
    · exact .inr ⟨own, there, listed⟩
    · exact .inl other
  · exact .inr earlier

/-- A type that has been opened need not be opened again. -/
theorem Opened.reachedFrom_skip {pending : List TypeHandle} {seen : List TypeHash} {h : TypeHandle}
    {own : Row} (opened : r.Opened target pending seen) (there : r.row? h = some own)
    (listed : own.typeHash ∈ seen) :
    r.ReachedFrom target pending ↔ r.ReachedFrom target (h :: pending) := by
  constructor
  · rintro ⟨p, member, reached⟩
    exact ⟨p, List.mem_cons_of_mem h member, reached⟩
  · rintro ⟨p, member, k, row, way, found, same⟩
    rcases List.mem_cons.mp member with rfl | other
    · obtain ⟨q, pends, onwards⟩ := opened.reached there listed way found same
      exact ⟨q, pends, k, row, onwards, found, same⟩
    · exact ⟨p, other, k, row, way, found, same⟩

theorem Opened.next (consistent : r.Consistent) {pending : List TypeHandle} {seen : List TypeHash}
    {h : TypeHandle} {own : Row} (opened : r.Opened target (h :: pending) seen)
    (there : r.row? h = some own) (differs : own.typeHash ≠ target) :
    r.Opened target ((r.baseTypes own).reverse ++ pending) (own.typeHash :: seen) := by
  intro hash member
  rcases List.mem_cons.mp member with rfl | earlier
  · refine ⟨differs, fun i row present same k base => ?_⟩
    have here := consistent.typeByHash?_of_row? present
    rw [same, consistent.typeByHash?_of_row? there] at here
    cases Option.some.inj here
    exact .inl (by simp [mem_baseTypes there, base])
  · refine ⟨(opened hash earlier).1, fun i row present same k base => ?_⟩
    rcases (opened hash earlier).2 i row present same k base with pends | ⟨other, found, listed⟩
    · rcases List.mem_cons.mp pends with rfl | rest
      · exact .inr ⟨own, there, List.mem_cons_self⟩
      · exact .inl (List.mem_append_right _ rest)
    · exact .inr ⟨other, found, List.mem_cons_of_mem _ listed⟩

/-- The search answers whether a type of the hash is reached from what is pending, as long as it has
a step for each type that is pending and for each link that has not been followed. -/
theorem reaches_iff (consistent : r.Consistent)
    (named : ∀ h row, r.row? h = some row → row.typeHash ≠ .empty) {steps : Nat}
    {pending : List TypeHandle} {seen : List TypeHash}
    (published : ∀ h ∈ pending, ∃ row, r.row? h = some row)
    (enough : pending.length + r.unfollowed seen ≤ steps) (opened : r.Opened target pending seen) :
    (r.reaches target steps pending seen).found?.isSome = true ↔ r.ReachedFrom target pending := by
  induction steps generalizing pending seen with
  | zero =>
    obtain rfl : pending = [] := List.eq_nil_of_length_eq_zero (by omega)
    simp [SearchEnd.found?, ReachedFrom]
  | succ steps ih =>
    cases pending with
    | nil => simp [SearchEnd.found?, ReachedFrom]
    | cons h rest =>
      obtain ⟨⟨own, there⟩, others⟩ := List.forall_mem_cons.mp published
      rw [reaches_cons there (named h own there)]
      split
      · rename_i found
        exact iff_of_true rfl ⟨h, List.mem_cons_self, h, own, .refl, there, found⟩
      · rename_i differs
        split
        · rename_i listed
          have skipped := opened.skip there listed
          rw [ih others (by simp at enough; omega) skipped]
          exact skipped.reachedFrom_skip there listed
        · rename_i fresh
          have opening := r.unfollowed_open there fresh
          have few : (r.baseTypes own).length ≤ own.bases.length := List.length_filterMap_le _ _
          have bases : ∀ k ∈ (r.baseTypes own).reverse, ∃ row, r.row? k = some row := fun k base =>
            ((mem_baseTypes there).mp (List.mem_reverse.mp base)).published consistent
          rw [ih (List.forall_mem_append.mpr ⟨bases, others⟩) (by simp at enough ⊢; omega)
            (opened.next consistent there differs)]
          exact reachedFrom_open there differs rest

/-- With more steps than there are links the search is over, and answers what is answered. -/
theorem reaches_eq_ofOption (r : Registry) (h : TypeHandle) (target : TypeHash) :
    ∃ answer : Option TypeHandle,
      (∀ steps, r.linkCount < steps → r.reaches target steps [h] [] = .ofOption answer) ∧
        r.derivesFrom h target = answer.isSome := by
  have finished : r.reaches target (r.linkCount + 1) [h] [] ≠ .unfinished :=
    reaches_finishes (by rw [unfollowed_nil, List.length_singleton]; omega)
  refine ⟨_, fun steps enough => ?_, rfl⟩
  obtain ⟨more, rfl⟩ := Nat.exists_eq_add_of_le (Nat.succ_le_of_lt enough)
  rw [reaches_add finished, SearchEnd.ofOption_found? finished]

theorem derivesFrom_iff (consistent : r.Consistent)
    (named : ∀ h row, r.row? h = some row → row.typeHash ≠ .empty) {h : TypeHandle} {own : Row}
    (there : r.row? h = some own) :
    r.derivesFrom h target = true ↔ ∃ k row, Relation.ReflTransGen r.HasBase h k ∧
      r.row? k = some row ∧ row.typeHash = target := by
  rw [derivesFrom, reaches_iff consistent named (by simp [there])
    (by rw [unfollowed_nil, List.length_singleton]; omega)]
  · simp [ReachedFrom]
  · intro hash listed
    cases listed

end Registry

namespace Catalog

variable {u : Universe} {c : Catalog}

/-- In every state in which no type has the empty hash, the search for a hash among a type and its
bases comes to its end: with more steps than there are links it is over, and that answer is the one
given. The type derives from the hash exactly if it is the type's own or that of a type which one or
more base links lead to, each to a published type. That holds of all graphs of links, those with
cycles and shared bases included. -/
theorem derives_from_reached (reachable : Reachable u c) {n : Nat}
    (named : ∀ h row, (c.registry n).row? h = some row → row.typeHash ≠ .empty) {h : TypeHandle}
    {own : Row} (alive : (c.registry n).row? h = some own) (target : TypeHash) :
    (∃ answer : Option TypeHandle,
      (∀ steps, (c.registry n).linkCount < steps →
        (c.registry n).reaches target steps [h] [] = .ofOption answer) ∧
      (c.registry n).derivesFrom h target = answer.isSome) ∧
    ((c.registry n).derivesFrom h target = true ↔
      own.typeHash = target ∨ ∃ k base, Relation.TransGen (c.registry n).HasBase h k ∧
        (c.registry n).row? k = some base ∧ base.typeHash = target) := by
  refine ⟨Registry.reaches_eq_ofOption _ h target, ?_⟩
  rw [Registry.derivesFrom_iff (reachable.allConsistent n) named alive]
  constructor
  · rintro ⟨k, row, way, found, same⟩
    rcases Relation.reflTransGen_iff_eq_or_transGen.mp way with rfl | onwards
    · cases Option.some.inj (alive.symm.trans found)
      exact .inl same
    · exact .inr ⟨k, row, onwards, found, same⟩
  · rintro (own' | ⟨k, base, way, found, same⟩)
    · exact ⟨h, own, .refl, alive, own'⟩
    · exact ⟨k, base, way.to_reflTransGen, found, same⟩

end Catalog

namespace Embedded

/-- The type that embeds another one derives from it. -/
theorem embedding_type_derives :
    Catalog.Reachable program.facts described ∧
      (∀ h row, (described.registry 0).row? h = some row → row.typeHash ≠ .empty) ∧
      ∃ own, (described.registry 0).row? derivedPass.pass.handle = some own ∧
        own.typeHash ≠ link.base ∧
        ∃ k base, Relation.TransGen (described.registry 0).HasBase derivedPass.pass.handle k ∧
          (described.registry 0).row? k = some base ∧ base.typeHash = link.base := by
  have filled : (described.registry 0).publishedRows.all (fun (_, row) => row.typeHash ≠ .empty) =
      true := by decide +kernel
  have named : ∀ h row, (described.registry 0).row? h = some row → row.typeHash ≠ .empty :=
    fun h row there =>
      of_decide_eq_true (List.all_eq_true.mp filled _ (Registry.mem_publishedRows.mpr there))
  have there : ((described.registry 0).row? derivedPass.pass.handle).any
      (fun row => row.typeHash ≠ link.base) = true := by decide +kernel
  obtain ⟨own, alive, other⟩ := (Option.any_eq_true _ _).mp there
  have differs := of_decide_eq_true other
  have derives : (described.registry 0).derivesFrom derivedPass.pass.handle link.base = true := by
    decide +kernel
  have reachable : Catalog.Reachable program.facts described := run_described.reachable
  refine ⟨reachable, named, own, alive, differs, ?_⟩
  rcases (Catalog.derives_from_reached reachable named alive link.base).2.mp derives with
    same | reached
  · exact absurd same differs
  · exact reached

end Embedded

end TypeCatalog
