import Mathlib.Data.List.Chain
import Mathlib.Data.List.Nodup
import Linkage.Graph.Search

namespace Linkage

namespace Trail

variable (t : Trail)

@[simp] theorem length_entities : t.entities.length = t.before.length + 1 := by
  simp [entities]

@[simp] theorem entities_ne_nil : t.entities ≠ [] := by
  simp [entities]

@[simp] theorem entities_goTo (p : Place) : (t.goTo p).entities = t.entities ++ [p.1] := by
  simp [entities, goTo]

theorem getLast?_entities : t.entities.getLast? = some t.here.1 := by
  simp [entities]

theorem visits_iff {id : Int64} : t.visits id = true ↔ id ∈ t.entities := by
  simp only [visits, entities, List.any_eq_true, beq_iff_eq, List.mem_reverse, List.mem_map]

end Trail

namespace Quest

variable (q : Quest)

/-- A search may enter an entity on the way. -/
def Passable (id : Int64) : Prop := id = q.goal ∨ id ∉ q.avoided

/-- A trail may go on to an entity: a neighbour of the last one, not on the trail, and not
avoided unless it is the goal. -/
def IsOpen (t : Trail) (id : Int64) : Prop :=
  id ∈ q.next t.here.1 ∧ q.Passable id ∧ id ∉ t.entities

/-- The trail that has not left its start. -/
def origin (start : Int64) : Trail := ⟨q.start start, []⟩

/-- A trail with one step more. -/
def onward (t : Trail) (id : Int64) : Trail := t.goTo (q.step t.here id)

@[simp] theorem here_origin (start : Int64) : (q.origin start).here = q.start start := rfl

@[simp] theorem entities_origin (start : Int64) : (q.origin start).entities = [start] := rfl

@[simp] theorem here_onward (t : Trail) (id : Int64) :
    (q.onward t id).here = q.step t.here id := rfl

@[simp] theorem before_onward (t : Trail) (id : Int64) :
    (q.onward t id).before = t.here :: t.before := rfl

@[simp] theorem entities_onward (t : Trail) (id : Int64) :
    (q.onward t id).entities = t.entities ++ [id] := by
  simp [onward, step]

/-- The trails that a search could follow if it forgot the places it has reached. -/
inductive Route (start : Int64) : Trail → Prop
  | origin : Route start (q.origin start)
  | onward {t : Trail} {id : Int64} : Route start t → q.IsOpen t id → Route start (q.onward t id)

namespace Route

variable {q : Quest} {start : Int64} {t u : Trail}

theorem head? (h : q.Route start t) : t.entities.head? = some start := by
  induction h with
  | origin => rfl
  | onward _ _ ih => rw [entities_onward, List.head?_append_of_ne_nil _ (by simp), ih]

theorem nodup (h : q.Route start t) : t.entities.Nodup := by
  induction h with
  | origin => simp
  | onward _ ho ih =>
    rw [entities_onward, ← List.concat_eq_append]
    exact ih.concat ho.2.2

theorem isChain (h : q.Route start t) : t.entities.IsChain fun a b => b ∈ q.next a := by
  induction h with
  | origin => simp
  | @onward t id _ ho ih =>
    rw [entities_onward]
    refine List.isChain_append.mpr ⟨ih, .singleton id, ?_⟩
    simp [t.getLast?_entities, ho.1]

theorem passable (h : q.Route start t) : ∀ id ∈ t.entities.tail, q.Passable id := by
  induction h with
  | origin => simp
  | onward _ ho ih =>
    rw [entities_onward, List.tail_append_of_ne_nil (by simp)]
    intro id hid
    rcases List.mem_append.mp hid with hid | hid
    · exact ih id hid
    · obtain rfl := List.mem_singleton.mp hid
      exact ho.2.1

/-- The requirement counts as met exactly when an entity on the way, ends included, meets it. -/
theorem met (h : q.Route start t) : t.here.2 = t.entities.any q.meets := by
  induction h with
  | origin => simp [Quest.start]
  | onward _ _ ih => simp [step, ih]

/-- A trail's place can be read off its entities. -/
theorem here_of_entities {ids : List Int64} {id : Int64} (h : q.Route start t)
    (he : t.entities = ids ++ [id]) : t.here = (id, (ids ++ [id]).any q.meets) := by
  have hlast := t.getLast?_entities
  rw [he, List.getLast?_concat, Option.some.injEq] at hlast
  exact Prod.ext hlast.symm (he ▸ h.met)

theorem eq_of_entities (ht : q.Route start t) (hu : q.Route start u)
    (he : t.entities = u.entities) : t = u := by
  induction ht generalizing u with
  | origin =>
    cases hu with
    | origin => rfl
    | onward hu _ =>
      have := congrArg List.length he
      simp at this
  | onward ht _ ih =>
    cases hu with
    | origin =>
      have := congrArg List.length he
      simp at this
    | @onward u id hu _ =>
      simp only [entities_onward] at he
      obtain ⟨hinit, hlast⟩ := List.append_inj' he rfl
      obtain rfl := ih hu hinit
      obtain rfl := List.singleton_inj.mp hlast
      rfl

end Route

end Quest

end Linkage
