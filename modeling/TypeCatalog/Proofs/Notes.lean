import TypeCatalog.Proofs.Descriptions
import TypeCatalog.Proofs.Scripts

/-!
Attributes over whole runs. As long as descriptions enter what is named in the attributes that they
collect, the owner of each row holds what is named in the attributes of the row, because it holds
what the descriptions of the row have entered. Descriptions in a script do so: every script leads to
such a state, as long as no slot sees as many of its rows end as there are generations.
-/
namespace TypeCatalog

namespace Catalog

variable {u : Universe} {c d : Catalog}

def NotesHeld (c : Catalog) : Prop := ∀ n, (c.registry n).RowsAmong Row.NotesHeld

theorem empty_notesHeld : NotesHeld {} := fun n index row present => by
  simp [registry] at present

theorem Annotates.notesHeld (annotates : c.Annotates d) {ended : Script.Pass → Prop}
    (kept : c.Kept ended) (gone : ∀ p ∈ c.passes, ended p.pass →
      (c.registry p.pass.registry).anyRow? p.pass.handle = none) (held : c.NotesHeld) :
    d.NotesHeld := by
  intro n
  rcases annotates n with same | ⟨op, declares, permitted, after⟩
  · exact same ▸ held n
  · rw [after]
    refine Operation.run_rowsAmong Row.notesHeld_lasting (kept.consistent n) (held n) ?_
    rintro h draft old rfl alive noted
    obtain ⟨p, top, rfl, rfl, -⟩ := permitted
    have running : p ∈ c.passes := top ▸ List.mem_cons_self
    rcases kept.bound p running with finished | bound
    · rw [gone p running finished] at alive
      contradiction
    · have added := (declares p _ top).mono fun name listed =>
        holds_of_bound bound alive listed
      rw [Row.NotesHeld, (Row.publish_grows old draft).owner]
      exact Row.publish_noted noted added

theorem AttainedBy.notesHeld (attained : AttainedBy Annotates u c) : c.NotesHeld :=
  attained.induction empty_notesHeld fun kept gone annotates held =>
    annotates.notesHeld kept gone held

/-- Beside a run stands the tally of what it has ended. -/
theorem tallied_run {kind : Catalog → Catalog → Prop}
    (run : Relation.ReflTransGen (fun a b => Step u a b ∧ kind a b) {} c) :
    ∃ tally, Relation.ReflTransGen
      (fun a b => Counted.Step u a b ∧ kind a.catalog b.catalog) {} ⟨c, tally⟩ := by
  induction run with
  | refl => exact ⟨{}, .refl⟩
  | @tail b d _ step ih =>
    obtain ⟨tally, run⟩ := ih
    exact ⟨tally.after b d, run.tail ⟨.step step.1, step.2⟩⟩

end Catalog

/-- The state that a script leads to is one that is attained while descriptions enter what is named
in their attributes, those of properties included, unless the tally of the script's steps is out of
bounds. -/
theorem Script.script_attains (w : World) (depth : Nat) (steps : List Step) :
    let s := (steps.forM (tellStep w depth)).outcome {}
    ∃ tally : Tally, Counted.Run w.types {} ⟨s.2.catalog [], tally⟩ ∧
      (tally.Bounded → Catalog.AttainedBy Catalog.AnnotatesAll w.types (s.2.catalog [])) := by
  intro s
  obtain ⟨tally, run⟩ := Catalog.tallied_run (script_annotated w depth steps)
  exact ⟨tally, Relation.ReflTransGen.mono (fun _ _ => And.left) _ _ run, .counted run⟩

end TypeCatalog
