import TypeCatalog.Proofs.Plays
import TypeCatalog.Script.Run

/-!
What a whole script does to the registries. A description goes on in steps of the catalog, and so
does everything that runs within it, however deeply; so a law is kept by every script whose text
holds nothing that the law forbids. That a state can be reached is such a law and forbids nothing:
each registry that a script ever makes is one of a state that can be reached, and all that is known
of those is known of it.
-/
namespace TypeCatalog

structure OpenPass.Grows (p q : OpenPass) : Prop where
  pass : q.pass = p.pass
  isFirst : q.isFirst = p.isFirst
  names : p.names ⊆ q.names
  made : p.made ⊆ q.made

theorem OpenPass.Grows.refl (p : OpenPass) : p.Grows p := ⟨rfl, rfl, fun _ => id, fun _ => id⟩

theorem OpenPass.Grows.trans {p q r : OpenPass} (first : p.Grows q) (second : q.Grows r) :
    p.Grows r where
  pass := second.pass.trans first.pass
  isFirst := second.isFirst.trans first.isFirst
  names := List.Subset.trans first.names second.names
  made := List.Subset.trans first.made second.made

theorem Draft.MadeOf.grows {p q : OpenPass} {draft : Draft} (collected : draft.MadeOf p)
    (grows : p.Grows q) : draft.MadeOf q where
  names name listed := grows.names (collected.names name listed)
  fields f member := grows.made (collected.fields f member)
  methods m member := (collected.methods m member).imp_left fun made => grows.made made
  constructors c member := (collected.constructors c member).imp_left fun made => grows.made made

/-- Whether a draft holds only what a pass has made and entered, with all that its attributes name. -/
structure Draft.Collected (draft : Draft) (p : OpenPass) : Prop extends draft.MadeOf p where
  noted : draft.Noted (· ∈ p.names)
  properties : PropertiesNoted (· ∈ p.names) draft.properties

theorem Draft.empty_collected (p : OpenPass) : Draft.Collected {} p :=
  ⟨Draft.empty_madeOf p, by constructor <;> simp, by simp [PropertiesNoted]⟩

theorem Draft.Collected.grows {p q : OpenPass} {draft : Draft} (collected : draft.Collected p)
    (grows : p.Grows q) : draft.Collected q :=
  ⟨collected.toMadeOf.grows grows, collected.noted.mono fun _ listed => grows.names listed,
    collected.properties.mono fun _ listed => grows.names listed⟩

namespace Draft.MadeOf

variable {p : OpenPass} {draft : Draft}

theorem names_of_added (collected : draft.MadeOf p) {added : Name} (entered : added ∈ p.names)
    {later : List Name} (listed : ∀ name ∈ later, name ∈ draft.names ∨ name = added) :
    ∀ name ∈ later, name ∈ p.names := by
  intro name member
  rcases listed name member with old | rfl
  · exact collected.names name old
  · exact entered

theorem setName (collected : draft.MadeOf p) {name : Name} (entered : name ∈ p.names) :
    Draft.MadeOf { draft with name := some name } p where
  names := collected.names_of_added entered fun _ _ => by grind [Draft.names]
  fields := collected.fields
  methods := collected.methods
  constructors := collected.constructors

theorem addField (collected : draft.MadeOf p) {f : Field} (entered : f.name ∈ p.names)
    (made : .accessor f.accessor ∈ p.made) :
    Draft.MadeOf { draft with fields := draft.fields ++ [f] } p where
  names := collected.names_of_added entered fun _ _ => by grind [Draft.names]
  fields := forall_mem_push.mpr ⟨collected.fields, made⟩
  methods := collected.methods
  constructors := collected.constructors

theorem addProperty (collected : draft.MadeOf p) {f : Property} (entered : f.name ∈ p.names) :
    Draft.MadeOf { draft with properties := draft.properties ++ [f] } p where
  names := collected.names_of_added entered fun _ _ => by grind [Draft.names]
  fields := collected.fields
  methods := collected.methods
  constructors := collected.constructors

theorem addMethod (collected : draft.MadeOf p) {m : Method} (entered : m.name ∈ p.names)
    (made : .callable m.callable ∈ p.made) (arity : m.callable.arity = m.params.length) :
    Draft.MadeOf { draft with methods := draft.methods ++ [m] } p where
  names := collected.names_of_added entered fun _ _ => by grind [Draft.names]
  fields := collected.fields
  methods := forall_mem_push.mpr ⟨collected.methods, made, arity⟩
  constructors := collected.constructors

theorem addConstructor (collected : draft.MadeOf p) {c : Constructor}
    (made : .callable c.callable ∈ p.made) (arity : c.callable.arity = c.params.length) :
    Draft.MadeOf { draft with constructors := draft.constructors ++ [c] } p where
  names := collected.names
  fields := collected.fields
  methods := collected.methods
  constructors := forall_mem_push.mpr ⟨collected.constructors, made, arity⟩

theorem addEnumValue (collected : draft.MadeOf p) {e : EnumValue} (entered : e.name ∈ p.names) :
    Draft.MadeOf { draft with enumValues := draft.enumValues ++ [e] } p where
  names := collected.names_of_added entered fun _ _ => by grind [Draft.names]
  fields := collected.fields
  methods := collected.methods
  constructors := collected.constructors

end Draft.MadeOf

namespace Script

namespace Play

variable {α β : Type} {u : Universe} {law : Catalog.Law u} {p q : OpenPass} {k : Nat} {x : Play α}
  {f : α → Play β} {fits : α → OpenPass → Prop} {fits' : β → OpenPass → Prop}

/-- Whether a computation keeps a law while the innermost description, `p`, goes on in it, and
whether its answer fits that description then. -/
def Fills (law : Catalog.Law u) (p : OpenPass) (x : Play α) (fits : α → OpenPass → Prop) : Prop :=
  ∀ rest m s, p.pass.registry < m → Ready law (p :: rest) m s → ∃ q, p.Grows q ∧
    Ready law (q :: rest) m (x.outcome s).2 ∧ ∀ a, (x.outcome s).1 = .ok a → fits a q

theorem fills_pure {a : α} (fit : fits a p) : Fills law p (pure a) fits := by
  refine fun rest m s _ ready => ⟨p, .refl p, ready, fun b done => ?_⟩
  cases done
  exact fit

theorem fills_throw (halt : Halt) : Fills law p (throw halt : Play α) fits :=
  fun _ _ _ _ ready => ⟨p, .refl p, ready, fun _ done => nomatch done⟩

theorem Fills.bind (first : Fills law p x fits)
    (next : ∀ a q, p.Grows q → fits a q → Fills law q (f a) fits') :
    Fills law p (x >>= f) fits' := by
  intro rest m s within ready
  rcases done : x.outcome s with ⟨answer, t⟩
  obtain ⟨q, grows, ready, fit⟩ := first rest m s within ready
  rw [done] at ready fit
  cases answer with
  | ok a =>
    rw [outcome_bind_ok done]
    obtain ⟨r, grows', after⟩ := next a q grows (fit a rfl) rest m t (grows.pass ▸ within) ready
    exact ⟨r, grows.trans grows', after⟩
  | error halt =>
    rw [outcome_bind_error done]
    exact ⟨q, grows, ready, fun _ answered => nomatch answered⟩

/-- Before a description goes on, anything may happen that leaves it open. -/
theorem Tame.bind_fills (tame : Tame law k x) (enough : k ≤ p.pass.registry + 1)
    (next : ∀ a, Fills law p (f a) fits') : Fills law p (x >>= f) fits' := by
  have first : Fills law p x fun _ q => q = p :=
    fun rest m s within ready =>
      ⟨p, .refl p, tame (p :: rest) m s (Nat.le_trans enough within) ready, fun _ _ => rfl⟩
  refine first.bind fun a q _ same => ?_
  rw [same]
  exact next a

theorem fills_foldlM {step : β → α → Play β} {items : List α}
    (each : ∀ b, ∀ a ∈ items, ∀ q, p.Grows q → fits' b q → Fills law q (step b a) fits') {b : β}
    (begun : fits' b q) (grows : p.Grows q) : Fills law q (items.foldlM step b) fits' := by
  induction items generalizing b q with
  | nil => exact fills_pure begun
  | cons first rest ih =>
    rw [List.foldlM_cons]
    refine (each b first List.mem_cons_self q grows begun).bind fun b' r grows' fit => ?_
    exact ih (fun b a listed => each b a (List.mem_cons_of_mem first listed)) fit
      (grows.trans grows')

/-- A number is given away for what the description makes with it. -/
theorem fills_fresh (make : Nat → Exported) (numbered : ∀ number, (make number).number = number) :
    Fills law p Play.fresh fun number q => make number ∈ q.made := by
  intro rest m s _ ready
  let made := make s.nextNumber
  refine ⟨{ p with made := p.made ++ [made] }, ⟨rfl, rfl, fun _ => id, ?_⟩, ?_, ?_⟩
  · exact List.subset_append_left _ _
  · exact ⟨law.keep ready.inv (.make (c := s.catalog (p :: rest)) rfl (numbered _)) (Nat.le_refl _),
      ready.numbered, ready.enough⟩
  · rintro number done
    cases done
    exact List.mem_append_right _ List.mem_cons_self

end Play

namespace Pass

open Play

variable {u : Universe} {law : Catalog.Law u} {p : OpenPass} {pass : Pass} {draft : Draft}

theorem fills_intern (same : p.pass = pass) (text : String) :
    Fills law p (pass.intern text) fun name q => name ∈ q.names := by
  subst same
  intro rest m s _ ready
  let name := ((s.registry p.pass.registry).intern text p.pass.owner).1
  refine ⟨{ p with names := p.names ++ [name] }, ⟨rfl, rfl, ?_, fun _ => id⟩, ?_, ?_⟩
  · exact List.subset_append_left _ _
  · exact ready.set _ _
      (law.keep ready.inv (.enter (c := s.catalog (p :: rest)) rfl text) (Nat.le_refl _))
  · rintro entered done
    cases done
    exact List.mem_append_right _ List.mem_cons_self

theorem outcome_note_string {s : Session} (within : pass.registry < s.registries.length)
    (key text : String) :
    (pass.note key (.string text)).outcome s = (pass.intern key >>= fun key =>
      pass.intern text >>= fun text => Pure.pure ⟨key, .string text.text⟩).outcome s := by
  have first : (pass.intern key).outcome s = _ := outcome_changeRegistry _ _ s
  have second : ∀ t, (pass.intern text).outcome t = _ := outcome_changeRegistry _ _
  have whole : (pass.note key (.string text)).outcome s = _ := outcome_changeRegistry _ _ s
  rw [outcome_bind_ok first, outcome_bind_ok (second _), whole]
  simp [Session.registry, within, Interner.internAttribute, Registry.intern]
  rfl

theorem fills_note (same : p.pass = pass) (key : String) (value : AttributeValue) :
    Fills law p (pass.note key value) fun a q => a.Noted (· ∈ q.names) := by
  cases value with
  | string text =>
    intro rest m s within ready
    rw [outcome_note_string (same ▸ Nat.lt_of_lt_of_le within ready.enough)]
    refine Fills.bind (fills_intern same key) (fun name q grows entered => ?_) rest m s within ready
    refine (fills_intern (grows.pass.trans same) text).bind fun value r further held => ?_
    refine fills_pure ⟨further.names entered, fun other told => ⟨value, held, ?_⟩⟩
    exact AttributeValue.string.inj told
  | _ =>
    exact Fills.bind (f := fun name => Pure.pure (Attribute.mk name _)) (fills_intern same key)
      fun _ _ _ entered => fills_pure ⟨entered, fun _ other => nomatch other⟩

theorem fills_notes (same : p.pass = pass) (notes : Notes) :
    Fills law p (pass.notes notes) fun attributes q => ∀ a ∈ attributes, a.Noted (· ∈ q.names) := by
  unfold Pass.notes
  induction notes generalizing p with
  | nil => exact fills_pure fun _ listed => nomatch listed
  | cons first rest ih =>
    rw [List.mapM_cons]
    refine (fills_note same first.1 first.2).bind fun a q grows noted => ?_
    refine (ih (grows.pass.trans same)).bind fun others r further all => fills_pure ?_
    exact List.forall_mem_cons.mpr ⟨noted.mono fun _ listed => further.names listed, all⟩

-- What a declaration adds to the draft is made of what its description has entered.
theorem fills_setName (same : p.pass = pass) (collected : draft.Collected p) (name : String) :
    Fills law p (pass.setName draft name) Draft.Collected :=
  (fills_intern same name).bind fun _ _ grows entered =>
    have later := collected.grows grows
    fills_pure ⟨later.toMadeOf.setName entered, later.noted, later.properties⟩

theorem fills_annotate (same : p.pass = pass) (collected : draft.Collected p) (key : String)
    (value : AttributeValue) : Fills law p (pass.annotate draft key value) Draft.Collected :=
  (fills_note same key value).bind fun _ _ grows noted =>
    have later := collected.grows grows
    fills_pure ⟨⟨later.names, later.fields, later.methods, later.constructors⟩,
      { later.noted with own := forall_mem_push.mpr ⟨later.noted.own, noted⟩ }, later.properties⟩

theorem fills_addEnumValue (same : p.pass = pass) (collected : draft.Collected p) (name : String)
    (value : Int64) : Fills law p (pass.addEnumValue draft name value) Draft.Collected :=
  (fills_intern same name).bind fun _ _ grows entered =>
    have later := collected.grows grows
    fills_pure ⟨later.toMadeOf.addEnumValue entered, later.noted, later.properties⟩

theorem fills_addField (same : p.pass = pass) (collected : draft.Collected p) (name : String)
    (target : TypeKey) (lens : Lens) (offset : Option UInt64) (notes : Notes) :
    Fills law p (pass.addField u draft name target lens offset notes) Draft.Collected := by
  refine (fills_intern same name).bind fun name q first entered => ?_
  refine (fills_fresh (fun number => .accessor ⟨number, pass.type, target, lens⟩)
    fun _ => rfl).bind fun number r second made => ?_
  have same := (first.trans second).pass.trans same
  refine (fills_notes same notes).bind fun attributes t third noted => fills_pure ?_
  have later := collected.grows ((first.trans second).trans third)
  exact ⟨later.toMadeOf.addField ((second.trans third).names entered) (third.made made),
    { later.noted with fields := forall_mem_push.mpr ⟨later.noted.fields, noted⟩ },
    later.properties⟩

theorem fills_addProperty (same : p.pass = pass) (collected : draft.Collected p) {name : Name}
    (entered : name ∈ p.names) (target : TypeKey) (getter : Value → Value)
    (setter : Option (Value → Value → Value)) (notes : Notes) :
    Fills law p (pass.addProperty u draft name target getter setter notes) Draft.Collected :=
  (fills_notes same notes).bind fun _ _ grows noted =>
    have later := collected.grows grows
    fills_pure ⟨later.toMadeOf.addProperty (grows.names entered), later.noted,
      forall_mem_push.mpr ⟨later.properties, noted⟩⟩

theorem fills_addMethod (same : p.pass = pass) (collected : draft.Collected p) (form : MethodForm)
    (name : String) (params : List TypeKey) (result : TypeKey)
    (body : Value → List Value → Effect) (notes : Notes) :
    Fills law p (pass.addMethod u draft form name params result body notes) Draft.Collected := by
  refine (fills_intern same name).bind fun name q first entered => ?_
  refine (fills_fresh (fun number => .callable ⟨number, form.access pass.type, params, body⟩)
    fun _ => rfl).bind fun number r second made => ?_
  have same := (first.trans second).pass.trans same
  refine (fills_notes same notes).bind fun attributes t third noted => fills_pure ?_
  have later := collected.grows ((first.trans second).trans third)
  refine ⟨later.toMadeOf.addMethod ((second.trans third).names entered) (third.made made) ?_,
    { later.noted with methods := forall_mem_push.mpr ⟨later.noted.methods, noted⟩ },
    later.properties⟩
  exact (List.length_map _).symm

theorem fills_addConstructor (same : p.pass = pass) (collected : draft.Collected p)
    (params : List TypeKey) (make : List Value → Value) (notes : Notes) :
    Fills law p (pass.addConstructor u draft params make notes) Draft.Collected := by
  refine (fills_fresh (fun number => .callable ⟨number, .none, params,
    fun object args => ⟨make args, object⟩⟩) fun _ => rfl).bind fun number q first made => ?_
  refine (fills_notes (first.pass.trans same) notes).bind fun attributes r second noted =>
    fills_pure ?_
  have later := collected.grows (first.trans second)
  refine ⟨later.toMadeOf.addConstructor (second.made made) ?_,
    { later.noted with constructors := forall_mem_push.mpr ⟨later.noted.constructors, noted⟩ },
    later.properties⟩
  exact (List.length_map _).symm

end Pass

namespace Play

variable {α β : Type} {u : Universe} {law : Catalog.Law u} {p : OpenPass} {x : Play Unit}
  {rest passes : List OpenPass} {m : Nat} {s : Session}

/-- How a run of the innermost description, `p`, has come out: it is over, or has halted within. -/
inductive Finish (law : Catalog.Law u) (p : OpenPass) (rest : List OpenPass) (m : Nat) :
    Except Halt Unit × Session → Prop where
  | closed {t : Session} (ready : Ready law rest m t) : Finish law p rest m (.ok (), t)
  | halted {t : Session} {halt : Halt} {q : OpenPass} (grows : p.Grows q)
      (ready : Ready law (q :: rest) m t) : Finish law p rest m (.error halt, t)

/-- Whether a computation runs the innermost description, `p`, and ends it unless it halts. -/
def Closes (law : Catalog.Law u) (p : OpenPass) (x : Play Unit) : Prop :=
  ∀ rest m s, p.pass.registry < m → Ready law (p :: rest) m s → Finish law p rest m (x.outcome s)

theorem closes_throw (halt : Halt) : Closes law p (throw halt) :=
  fun _ _ _ _ ready => .halted (.refl p) ready

theorem outcome_wrap (x : Play α) (g : α → β) (s : Session) :
    ((x >>= fun a => pure (g a)).outcome s).2 = (x.outcome s).2 := by
  rcases done : x.outcome s with ⟨answer, t⟩
  cases answer with
  | ok a => rw [outcome_bind_ok done]; rfl
  | error halt => rw [outcome_bind_error done]

/-- A description that a law lets end. -/
theorem move_end {c d : Catalog} (inv : law.inv c) (move : Catalog.Move u c d)
    (annotates : c.AnnotatesAll d) (top : c.passes = p :: d.passes)
    (freed : law.frees p.pass.registry p.pass.handle) : law.inv d := by
  refine law.move inv move annotates fun q other => ?_
  rw [top] at other
  cases other
  exact freed

/-- The description of a new row is abandoned when it halts. -/
theorem Closes.ready_first (closes : Closes law p x) (isFirst : p.isFirst = true)
    (freed : law.frees p.pass.registry p.pass.handle)
    (within : p.pass.registry < m) (ready : Ready law (p :: rest) m s) :
    Ready law rest m ((onHalt x (changeRegistry p.pass.registry fun r =>
      ((), r.discardPending p.pass.handle))).outcome s).2 := by
  have finish := closes rest m s within ready
  generalize done : x.outcome s = result at finish
  cases finish with
  | closed ready =>
    rw [onHalt, outcome_tryCatch_ok done]
    exact ready
  | @halted t halt q grows ready =>
    have cleaned := outcome_changeRegistry p.pass.registry
      (fun r => ((), r.discardPending p.pass.handle)) t
    rw [onHalt, outcome_tryCatch_error done, outcome_bind_ok cleaned]
    rw [← grows.pass] at freed ⊢
    have first := grows.isFirst.trans isFirst
    exact ready.set _ _ (move_end ready.inv (.abandon (c := t.catalog (q :: rest)) rfl first)
      (Catalog.collects_abandon rfl first) rfl freed)

/-- A further description is dropped when it halts. -/
theorem Closes.ready_later (closes : Closes law p x) (later : p.isFirst = false)
    (freed : law.frees p.pass.registry p.pass.handle)
    (within : p.pass.registry < m) (ready : Ready law passes m s)
    (opens : Catalog.Move u (s.catalog passes) (s.catalog (p :: passes))) :
    Ready law passes m (x.outcome s).2 := by
  have opened : Ready law (p :: passes) m s :=
    ⟨law.keep ready.inv opens (Nat.le_succ _), ready.numbered, ready.enough⟩
  have finish := closes passes m s within opened
  generalize x.outcome s = result at finish ⊢
  cases finish with
  | closed ready => exact ready
  | @halted t halt q grows ready =>
    rw [← grows.pass] at freed
    refine ⟨?_, ready.numbered, ready.enough⟩
    exact move_end ready.inv (.drop (c := t.catalog (q :: passes)) rfl
      (grows.isFirst.trans later)) (fun _ => .inl rfl) rfl freed

/-- Once the draft of a description is made, it is folded into the row. -/
theorem Fills.closes {y : Play Draft} (fills : Fills law p y Draft.Collected)
    (freed : law.frees p.pass.registry p.pass.handle) :
    Closes law p (y >>= fun draft =>
      changeRegistry p.pass.registry fun r => ((), r.commit p.pass.handle draft)) := by
  intro rest m s within ready
  rcases drafted : y.outcome s with ⟨answer, t⟩
  obtain ⟨q, grows, ready, fit⟩ := fills rest m s within ready
  rw [drafted] at ready fit
  cases answer with
  | ok draft =>
    rw [outcome_bind_ok drafted]
    rw [← grows.pass] at freed ⊢
    have collected := fit draft rfl
    exact .closed (ready.set _ _ (move_end ready.inv
      (.commit (c := t.catalog (q :: rest)) rfl collected.toMadeOf)
      (Catalog.collects_commit rfl collected.toMadeOf ⟨collected.noted, collected.properties⟩)
      rfl freed))
  | error halt =>
    rw [outcome_bind_error drafted]
    exact .halted grows ready

end Play

-- The parts of the interpreter, each in terms of the others one level further down.
open Play

theorem keep_bare (s : Session) (word : String) (reply : Reply) :
    (s.keep word reply).bare = s.bare := by
  unfold Session.keep
  split <;> rfl

/-- The default constructor that a description offers runs no steps. -/
theorem World.All.wanted {w : World} {may : Action → Prop} (every : w.All may) (type : TypeKey)
    (config : RegistryConfig) : allDecls may ((w.describe type).wanted config) := by
  unfold Description.wanted
  repeat' split
  · exact ⟨trivial, every type⟩
  · exact every type
  · exact every type

/-- What each part of the interpreter does when calls may be nested to a depth, as long as what it
runs holds nothing that the law forbids. -/
structure TameAt (w : World) (law : Catalog.Law w.types) (depth : Nat) : Prop where
  register : ∀ n owner type, Tame law (n + 1) (register w depth n owner type)
  describe : ∀ (p : OpenPass) decls, law.frees p.pass.registry p.pass.handle →
    allDecls law.allows decls → Closes law p (describe w depth p.pass decls)
  declare : ∀ (p : OpenPass) (draft : Draft) decl, decl.All law.allows → draft.Collected p →
    Fills law p (declare w depth p.pass draft decl) Draft.Collected
  addFunction : ∀ n owner source, Tame law (n + 1) (addFunction w depth n owner source)
  setUpItem : ∀ n name item, item.All law.allows →
    Tame law (n + 1) (setUpItem w depth n name item)
  act : ∀ n action, action.All law.allows → Tame law (n + 1) (act w depth n action)
  tellStep : ∀ step, step.All law.allows → Tame law 0 (tellStep w depth step)

variable {w : World} {law : Catalog.Law w.types} {depth : Nat}

theorem tameAt_zero (w : World) (law : Catalog.Law w.types) : TameAt w law 0 where
  register n owner type := by
    rw [Script.register]
    exact (still_throw _).tame
  describe p decls _ _ := by
    rw [Script.describe]
    exact closes_throw _
  declare p draft decl _ _ := by
    rw [Script.declare.eq_def]
    exact fills_throw _
  addFunction n owner source := by
    rw [Script.addFunction]
    exact (still_throw _).tame
  setUpItem n name item _ := by
    rw [Script.setUpItem.eq_def]
    exact (still_throw _).tame
  act n action _ := by
    rw [Script.act.eq_def]
    exact (still_throw _).tame
  tellStep step _ := by
    rw [Script.tellStep]
    exact (still_tell _).tame

/-- What registering a type answers: the handle of the row that was there, or of the new one. -/
theorem handle_of_register {n : Nat} {owner : ModuleId} {type : TypeKey} {s t : Session}
    {h : TypeHandle} (done : (register w depth n owner type).outcome s = (.ok h, t)) :
    (∃ row, (s.registry n).anyByHash? (w.types.hash type) = some (h, row)) ∨
      ((s.registry n).anyByHash? (w.types.hash type) = none ∧
        h = ((s.registry n).insertSkeleton w.types type (ownerOf w.types type owner)).1) := by
  cases depth with
  | zero => rw [register] at done; cases done
  | succ depth =>
    rw [register] at done
    obtain ⟨r, s', got, done⟩ := outcome_bind_eq_ok done
    cases got
    cases absent : (s.registry n).anyByHash? (w.types.hash type) with
    | some found =>
      rw [absent] at done
      cases done
      exact .inl ⟨found.2, rfl⟩
    | none =>
      rw [absent] at done
      dsimp only at done
      have added := outcome_changeRegistry n
        (·.insertSkeleton w.types type (ownerOf w.types type owner)) s
      rw [outcome_bind_ok added] at done
      obtain ⟨_, s', _, done⟩ := outcome_bind_eq_ok done
      exact .inr ⟨rfl, (Except.ok.inj (congrArg Prod.fst done)).symm⟩

namespace TameAt

theorem need (tame : TameAt w law depth) (n : Nat) (owner : ModuleId) (type : TypeKey) :
    Tame law (n + 1) (discard (Script.register w depth n owner type)) :=
  (tame.register n owner type).discard

theorem register_succ (tame : TameAt w law depth) (lawful : w.All law.allows) (n : Nat)
    (owner : ModuleId) (type : TypeKey) :
    Tame law (n + 1) (Script.register w (depth + 1) n owner type) := by
  intro passes m s within ready
  rw [Script.register]
  refine ready_bind ((still_registry n).ready ready) fun r t got _ => ?_
  cases got
  cases absent : (s.registry n).anyByHash? (w.types.hash type) with
  | some found => exact (still_pure found.1).ready ready
  | none =>
    -- The row is added, and its description begins.
    let owner := ownerOf w.types type owner
    let p := (s.catalog passes).firstPass w.types n type owner
    have added := outcome_changeRegistry n (·.insertSkeleton w.types type owner) s
    have opened : Ready law (p :: passes) m _ := ready.set n _ (law.keep ready.inv
      (.register (c := s.catalog passes) owner (Nat.lt_of_lt_of_le within ready.enough) absent)
      (Nat.le_succ _))
    have freed : law.frees p.pass.registry p.pass.handle := law.first owner ready.inv absent
    rw [outcome_bind_ok added, outcome_wrap]
    exact (tame.describe p _ freed (lawful.wanted type _)).ready_first rfl freed within opened

theorem fills_declares (tame : TameAt w law depth) (p : OpenPass) {decls : List Decl}
    (lawful : allDecls law.allows decls) :
    Fills law p (decls.foldlM (Script.declare w depth p.pass) {}) Draft.Collected := by
  have each := allDecls_iff.mp lawful
  refine fills_foldlM (fun draft decl listed q grows collected => ?_) (Draft.empty_collected p)
    (.refl p)
  rw [← grows.pass]
  exact tame.declare q draft decl (each decl listed) collected

theorem describe_succ (tame : TameAt w law depth) (p : OpenPass) {decls : List Decl}
    (freed : law.frees p.pass.registry p.pass.handle) (lawful : allDecls law.allows decls) :
    Closes law p (Script.describe w (depth + 1) p.pass decls) := by
  rw [Script.describe]
  exact (tame.fills_declares p lawful).closes freed

theorem declare_succ (tame : TameAt w law depth) (p : OpenPass) (draft : Draft) {decl : Decl}
    (lawful : decl.All law.allows) (collected : draft.Collected p) :
    Fills law p (Script.declare w (depth + 1) p.pass draft decl) Draft.Collected := by
  have need := tame.need p.pass.registry p.pass.owner
  have enough : p.pass.registry + 1 ≤ p.pass.registry + 1 := Nat.le_refl _
  rw [Script.declare.eq_def]
  cases decl with
  | setName name => exact Pass.fills_setName rfl collected name
  | annotate key value => exact Pass.fills_annotate rfl collected key value
  | enumValue name value => exact Pass.fills_addEnumValue rfl collected name value
  | field name target lens offset notes =>
    refine (need target).bind_fills enough fun _ => ?_
    exact Pass.fills_addField rfl collected name target lens offset notes
  | property name target getter setter notes =>
    refine (Pass.fills_intern rfl name).bind fun name q grows entered => ?_
    refine (need target).bind_fills (grows.pass ▸ enough) fun _ => ?_
    exact Pass.fills_addProperty grows.pass (collected.grows grows) entered target getter setter
      notes
  | base target lens =>
    refine (need target).bind_fills enough fun _ => fills_pure ?_
    exact ⟨⟨collected.names, collected.fields, collected.methods, collected.constructors⟩,
      collected.noted, collected.properties⟩
  | method form name params result body notes =>
    refine (tame_forM fun type _ => need type).bind_fills enough fun _ => ?_
    refine (need result).bind_fills enough fun _ => ?_
    exact Pass.fills_addMethod rfl collected form name params result body notes
  | constructor params make notes =>
    refine (tame_forM fun type _ => need type).bind_fills enough fun _ => ?_
    refine (need p.pass.type).bind_fills enough fun _ => ?_
    exact Pass.fills_addConstructor rfl collected params make notes
  | probe =>
    refine (still_registry _).tame.bind_fills enough fun r => ?_
    exact (still_tell _).tame.bind_fills enough fun _ => fills_pure collected
  | panic => exact fills_throw _
  | run steps =>
    rw [Decl.All] at lawful
    have each := allSteps_iff.mp lawful
    have ran := tame_forM fun step listed => tame.tellStep step (each step listed)
    exact ran.bind_fills (Nat.zero_le _) fun _ => fills_pure collected

theorem addFunction_succ (tame : TameAt w law depth) (n : Nat) (owner : ModuleId)
    (source : FunctionSource) :
    Tame law (n + 1) (Script.addFunction w (depth + 1) n owner source) := by
  rw [Script.addFunction]
  refine (tame_forM fun type _ => tame.need n owner type).bind fun _ => ?_
  refine (tame.need n owner source.result).bind fun _ => ?_
  have fresh : Tame law (n + 1) Play.fresh := fun passes m s _ ready =>
    ⟨law.keep ready.inv .number (Nat.le_refl _), ready.numbered, ready.enough⟩
  refine fresh.bind fun number => ?_
  refine (tame_changeRegistry (.addFunction owner source.name _ _ _) (fun _ => rfl) fun _ =>
    .addFunction n owner _ _ _ _).bind fun added => ?_
  split
  · exact (still_pure _).tame
  · exact (still_fail _).tame

theorem setUpItem_succ (tame : TameAt w law depth) (n : Nat) (name : String) {item : SetUp}
    (lawful : item.All law.allows) :
    Tame law (n + 1) (Script.setUpItem w (depth + 1) n name item) := by
  rw [Script.setUpItem.eq_def]
  cases item with
  | register type => exact (tame.register n _ type).bind fun _ => (still_tell _).tame
  | function source => exact (tame.addFunction n _ source).bind fun _ => (still_tell _).tame
  | fail message => exact (still_fail _).tame
  | invalid message => exact (still_fail _).tame
  | run steps =>
    rw [SetUp.All] at lawful
    have each := allSteps_iff.mp lawful
    have ran := tame_forM fun step listed => tame.tellStep step (each step listed)
    exact ran.mono (Nat.zero_le _)

theorem extend_succ (tame : TameAt w law depth) (n : Nat) {type : TypeKey} {decls : List Decl}
    (opened : law.opens type) (lawful : allDecls law.allows decls) :
    Tame law (n + 1) (Script.act w (depth + 1) n (.extend type decls)) := by
  intro passes m s within ready
  rw [Script.act]
  refine ready_bind (tame.register n .host type passes m s within ready) fun handle t done after => ?_
  -- The row is told from those that are kept before anything else happens to the registry.
  have freed : law.frees n handle := by
    rcases handle_of_register done with ⟨row, there⟩ | ⟨absent, rfl⟩
    · exact law.further ready.inv opened there
    · exact law.first _ ready.inv absent
  refine ready_bind ((still_registry n).ready after) fun r t' got _ => ?_
  cases got
  let p := (t.catalog passes).laterPass n type handle
  have described := tame.describe p decls freed lawful
  refine ready_bind (described.ready_later rfl freed within after ?_) fun _ t' _ ready => ?_
  · exact .extend (c := t.catalog passes) type handle (Nat.lt_of_lt_of_le within after.enough)
  · exact (still_pure _).ready ready

theorem act_succ (tame : TameAt w law depth) (n : Nat) {action : Action}
    (lawful : action.All law.allows) : Tame law (n + 1) (Script.act w (depth + 1) n action) := by
  cases action with
  | request request =>
    rw [Script.act]
    exact request.tame_answer lawful
  | register type owner =>
    rw [Script.act]
    exact (tame.register n owner type).wrap _
  | extend type decls =>
    rw [Action.All] at lawful
    exact tame.extend_succ n lawful.1 lawful.2
  | function source owner =>
    rw [Script.act]
    exact (tame.addFunction n owner source).wrap _
  | setUp name items =>
    rw [Action.All] at lawful
    have cleared : law.clears (.ofName name) := lawful.1
    have each := allItems_iff.mp lawful.2
    rw [Script.act]
    -- The hash of the name stays a variable, so that nothing below evaluates it.
    dsimp only
    generalize ModuleId.ofName name = m at cleared
    refine (still_registry n).tame.bind fun r => ?_
    split
    · exact (still_pure _).tame
    · refine (tame_declare m name).bind fun _ => ?_
      have ran := tame_forM fun item listed => tame.setUpItem n name item (each item listed)
      refine (ran.tryCatch fun halt => ?_).bind fun _ => ?_
      · split
        · exact (tame_unregister cleared).discard.bind fun _ => (still_throw _).tame
        · exact (still_throw _).tame
      · exact (tame_changeRegistry (.markInitialized _) (fun _ => rfl) fun _ =>
          .markInitialized n _).wrap _

theorem tellStep_succ (tame : TameAt w law depth) {step : Step} (lawful : step.All law.allows) :
    Tame law 0 (Script.tellStep w (depth + 1) step) := by
  obtain ⟨name, keepAs, action⟩ := step
  rw [Step.All] at lawful
  rw [Script.tellStep]
  refine still_get.tame.bind fun before => ?_
  have emptied : Tame law 0 (modify fun s : Session => { s with told := [] }) :=
    Still.tame fun _ => rfl
  refine emptied.bind fun _ => ?_
  intro passes m s _ ready
  have named : Ready law passes m ((modifyGet (·.named name) : Play Nat).outcome s).2 :=
    (ready_named ready (outcome_named name s)).mono (Nat.le_max_left _ _)
  refine ready_bind named fun n t found _ => ?_
  have acted : Tame law (n + 1) (tryCatch (Except.ok <$> Script.act w depth n action)
      fun halt => pure (.error halt)) :=
    ((tame.act n action lawful).wrap _).tryCatch fun _ => (still_pure _).tame
  have told : ∀ answer, Tame law (n + 1) (modify fun s : Session =>
      { s with told := before.told ++ [.step answer s.told] }) :=
    fun answer => Still.tame fun _ => rfl
  have both := ready_named ready found
  refine ((acted.bind fun answer => ?_) passes _ t (Nat.le_max_right _ _) both).mono
    (Nat.le_max_left _ _)
  split
  · split
    · exact Tame.bind (x := modify _) (Still.tame fun s => keep_bare s _ _) fun _ => told _
    · exact told _
  · exact told _

theorem succ (tame : TameAt w law depth) (lawful : w.All law.allows) :
    TameAt w law (depth + 1) where
  register := tame.register_succ lawful
  describe p _ freed lawful := tame.describe_succ p freed lawful
  declare p draft _ lawful collected := tame.declare_succ p draft lawful collected
  addFunction := tame.addFunction_succ
  setUpItem n name _ lawful := tame.setUpItem_succ n name lawful
  act n _ lawful := tame.act_succ n lawful
  tellStep _ lawful := tame.tellStep_succ lawful

end TameAt

/-- The interpreter keeps a law as long as no description holds what the law forbids. -/
theorem tameAt {law : Catalog.Law w.types} (lawful : w.All law.allows) (depth : Nat) :
    TameAt w law depth := by
  induction depth with
  | zero => exact tameAt_zero w law
  | succ depth ih => exact ih.succ lawful

/-- Whatever a script does, its registries are those of a state that is reached by steps in which
descriptions enter what is named in their attributes, those of properties included. -/
theorem script_annotated (w : World) (depth : Nat) (steps : List Step) :
    let s := (steps.forM (tellStep w depth)).outcome {}
    Relation.ReflTransGen (fun a b => Catalog.Step w.types a b ∧ a.AnnotatesAll b) {}
      (s.2.catalog []) := by
  have every := Catalog.Law.annotated_allows w.types
  have tame := tameAt (w := w) (fun type => allDecls_of every _) depth
  have empty : Session.Numbered {} := fun _ _ found => nomatch found
  have ready : Ready (Catalog.Law.annotated w.types) [] 0 {} := ⟨.refl, empty, Nat.zero_le _⟩
  have ran := tame_forM fun step (_ : step ∈ steps) => tame.tellStep step (step.all_of every)
  exact (ran [] 0 {} (Nat.le_refl _) ready).inv

/-- Whatever a script does, its registries are those of a state that can be reached. -/
theorem script_reachable (w : World) (depth : Nat) (steps : List Step) :
    let s := (steps.forM (tellStep w depth)).outcome {}
    Catalog.Reachable w.types (s.2.catalog []) :=
  Relation.ReflTransGen.mono (fun _ _ => And.left) _ _ (script_annotated w depth steps)

end Script

end TypeCatalog
