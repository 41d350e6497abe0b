import Linkage.Proofs.Json.Lexing
import Mathlib.Data.List.Forall2

/-! Printed values are read back as their trees, if their numbers are integers. -/

namespace Linkage.Json

open Linkage.Json.Tree (Frame Builder)

/-- Characters whose tokens lead from one state to another, whatever containers are open. -/
def Builds (cs : List Char) (before after : List Frame → Builder) : Prop :=
  ∃ ts, Lexes cs ts ∧ ∀ frames, ts.foldlM Builder.step (before frames) = some (after frames)

/-- Characters that are read as a tree. -/
def Spells (cs : List Char) (t : Tree) : Prop := Builds cs .value (.after t)

namespace Builds

variable {as bs cs : List Char} {p q r s : List Frame → Builder}

theorem nil (p : List Frame → Builder) : Builds [] p p := ⟨[], .nil, fun _ => rfl⟩

theorem token {t : Token} (h : Lexes cs [t])
    (hstep : ∀ frames, (p frames).step t = some (q frames)) : Builds cs p q :=
  ⟨[t], h, fun frames => by simp [hstep]⟩

theorem mark {c : Char} {m : Token} (ha : Builds as p q) (hm : Token.mark? c = some m)
    (hstep : ∀ frames, (q frames).step m = some (r frames)) (hb : Builds bs r s) :
    Builds (as ++ c :: bs) p s := by
  obtain ⟨ts, hla, hta⟩ := ha
  obtain ⟨us, hlb, htb⟩ := hb
  refine ⟨ts ++ m :: us, hla.mark hm hlb, fun frames => ?_⟩
  rw [List.foldlM_append, hta]
  change (m :: us).foldlM Builder.step (q frames) = _
  rw [List.foldlM_cons, hstep]
  exact htb frames

/-- What can be built anywhere can be built inside a container. -/
theorem inside (h : Builds cs p q) (frame : Frame) :
    Builds cs (fun frames => p (frame :: frames)) (fun frames => q (frame :: frames)) := by
  obtain ⟨ts, hl, ht⟩ := h
  exact ⟨ts, hl, fun frames => ht (frame :: frames)⟩

/-- States that take the same steps, an end of the characters aside. -/
theorem congr_left {p' : List Frame → Builder} (h : Builds cs p q)
    (hne : ∀ frames, p frames ≠ q frames)
    (hstep : ∀ frames t b, (p frames).step t = some b → (p' frames).step t = some b) :
    Builds cs p' q := by
  obtain ⟨ts, hl, ht⟩ := h
  refine ⟨ts, hl, fun frames => ?_⟩
  have hrun := ht frames
  cases ts with
  | nil => exact absurd (Option.some.inj hrun) (hne frames)
  | cons t ts =>
    rw [List.foldlM_cons] at hrun ⊢
    obtain ⟨b, hb, hrest⟩ := Option.bind_eq_some_iff.mp hrun
    exact Option.bind_eq_some_iff.mpr ⟨b, hstep frames t b hb, hrest⟩

end Builds

namespace Spells

variable {cs : List Char} {t : Tree}

theorem ofText? {s : String} (h : Spells s.toList t) : Tree.ofText? s = some t := by
  obtain ⟨ts, hl, ht⟩ := h
  obtain ⟨l, hrun, hclose⟩ := hl []
  have htokens : Token.ofChars? s.toList = some ts := by
    rw [Token.ofChars?, Lexer.start, hrun, Option.bind_some, Lexer.finish_eq, hclose]
    simp
  rw [Tree.ofText?, htokens, Option.bind_some, Tree.ofTokens?, ht []]
  rfl

/-- The items of an array after those that are done, to the end of the array. -/
theorem items {css : List (List Char)} {trees : List Tree} (h : Spells cs t)
    (hs : List.Forall₂ Spells css trees) (done : List Tree) :
    Builds ([','].intercalate (cs :: css) ++ [']'])
      (fun frames => .value (.array done :: frames))
      (.after (.array (done.reverse ++ t :: trees))) := by
  -- On the items that follow: a comma puts the item before it among those that are done.
  induction hs generalizing cs t done with
  | nil =>
    rw [List.intercalate_singleton]
    refine (h.inside (.array done)).mark rfl (fun frames => ?_) (.nil _)
    simp [Builder.step, Builder.follow?]
  | cons h' _ ih =>
    rw [List.intercalate_cons_cons, List.append_assoc, List.append_assoc]
    refine (h.inside (.array done)).mark rfl (fun _ => rfl) ?_
    simpa using ih h' (t :: done)

theorem array {css : List (List Char)} {trees : List Tree} (hs : List.Forall₂ Spells css trees) :
    Spells ('[' :: [','].intercalate css ++ [']']) (.array trees) := by
  refine (Builds.nil .value).mark rfl (r := .item) (fun _ => rfl) ?_
  cases hs with
  | nil => exact (Builds.nil .item).mark rfl (fun _ => rfl) (.nil _)
  | cons h hs =>
    refine (h.items hs []).congr_left (fun _ => nofun) fun frames t b hb => ?_
    cases t <;> first | exact hb | cases hb

/-- A key and a text with a colon between them. -/
def member (m : String × List Char) : List Char := (quote m.1).toList ++ ':' :: m.2

/-- A key with the characters of a value, and the same as read. -/
def Member (m : String × List Char) (t : List Piece × Tree) : Prop :=
  t.1 = Quoted.pieces m.1 ∧ Spells m.2 t.2

theorem Member.builds {m : String × List Char} {t : List Piece × Tree} (h : Member m t)
    (done : List (List Piece × Tree)) :
    Builds (member m) (.key done) (fun frames => .after t.2 (.object done t.1 :: frames)) := by
  obtain ⟨hkey, hvalue⟩ := h
  rw [hkey]
  exact (Builds.token (.quote m.1) fun _ => rfl).mark rfl (fun _ => rfl) (hvalue.inside _)

/-- The members of an object after those that are done, to the end of the object. -/
theorem members {m : String × List Char} {t : List Piece × Tree} {ms : List (String × List Char)}
    {trees : List (List Piece × Tree)} (h : Member m t) (hs : List.Forall₂ Member ms trees)
    (done : List (List Piece × Tree)) :
    Builds ([','].intercalate ((m :: ms).map member) ++ ['}'])
      (.key done) (.after (.object (done.reverse ++ t :: trees))) := by
  induction hs generalizing m t done with
  | nil =>
    rw [List.map_singleton, List.intercalate_singleton]
    refine (h.builds done).mark rfl (fun frames => ?_) (.nil _)
    simp [Builder.step, Builder.follow?]
  | cons h' _ ih =>
    rw [List.map_cons, List.map_cons, List.intercalate_cons_cons, List.append_assoc,
      List.append_assoc]
    refine (h.builds done).mark rfl (fun _ => rfl) ?_
    simpa using ih h' (t :: done)

theorem object {ms : List (String × List Char)} {trees : List (List Piece × Tree)}
    (hs : List.Forall₂ Member ms trees) :
    Spells ('{' :: [','].intercalate (ms.map member) ++ ['}']) (.object trees) := by
  refine (Builds.nil .value).mark rfl (r := .member) (fun _ => rfl) ?_
  cases hs with
  | nil => exact (Builds.nil .member).mark rfl (fun _ => rfl) (.nil _)
  | cons h hs =>
    refine (members h hs []).congr_left (fun _ => nofun) fun frames t b hb => ?_
    cases t <;> first | exact hb | cases hb

end Spells

/-! ## Values -/

/-- The numeral of a number's text. -/
def Number.numeral : Number → Numeral
  | .int n => .ofInt n
  | .double negative x => (Numeral.ofChars? (text (.double negative x)).toList).getD (.ofInt 0)

namespace Value

mutual

/-- The tree of a value's text. -/
def tree : Value → Tree
  | .null => .null
  | .bool b => .bool b
  | .number n => .number n.numeral
  | .text s => .quoted (Quoted.pieces s)
  | .array items => .array (trees items)
  | .object members => .object (memberTrees members)

def trees : List Value → List Tree
  | [] => []
  | v :: rest => v.tree :: trees rest

def memberTrees : List (String × Value) → List (List Piece × Tree)
  | [] => []
  | (key, v) :: rest => (Quoted.pieces key, v.tree) :: memberTrees rest

end

mutual

/-- All numbers in a value are integers. -/
def isWhole : Value → Bool
  | .number (.double _ _) => false
  | .array items => itemsAreWhole items
  | .object members => membersAreWhole members
  | _ => true

def itemsAreWhole : List Value → Bool
  | [] => true
  | v :: rest => v.isWhole && itemsAreWhole rest

def membersAreWhole : List (String × Value) → Bool
  | [] => true
  | (_, v) :: rest => v.isWhole && membersAreWhole rest

end

theorem trees_eq (items : List Value) : trees items = items.map tree := by
  induction items with
  | nil => rfl
  | cons v rest ih => rw [trees, ih, List.map_cons]

theorem memberTrees_eq (members : List (String × Value)) :
    memberTrees members = members.map fun m => (Quoted.pieces m.1, m.2.tree) := by
  induction members with
  | nil => rfl
  | cons m rest ih => rw [memberTrees, ih, List.map_cons]

theorem itemsAreWhole_iff {items : List Value} :
    itemsAreWhole items = true ↔ ∀ v ∈ items, v.isWhole = true := by
  induction items with
  | nil => simp [itemsAreWhole]
  | cons v rest ih => simp [itemsAreWhole, ih]

theorem membersAreWhole_iff {members : List (String × Value)} :
    membersAreWhole members = true ↔ ∀ m ∈ members, m.2.isWhole = true := by
  induction members with
  | nil => simp [membersAreWhole]
  | cons m rest ih => simp [membersAreWhole, ih]

@[simp] theorem isWhole_array {items : List Value} :
    (array items).isWhole = true ↔ ∀ v ∈ items, v.isWhole = true := by
  rw [isWhole, itemsAreWhole_iff]

@[simp] theorem isWhole_object {members : List (String × Value)} :
    (object members).isWhole = true ↔ ∀ m ∈ members, m.2.isWhole = true := by
  rw [isWhole, membersAreWhole_iff]

@[simp] theorem isWhole_text (s : String) : (text s).isWhole = true := rfl

@[simp] theorem isWhole_int (n : Int) : (int n).isWhole = true := rfl

@[simp] theorem isWhole_bool (b : Bool) : (bool b).isWhole = true := rfl

/-- A word or a numeral. -/
theorem spells_run {s : String} {tok : Token} {t : Tree} (hne : s.toList ≠ [])
    (hrun : s.toList.any Lexer.endsRun = false) (htok : Token.ofRun? s.toList = some tok)
    (hbegin : ∀ frames, Builder.begin? frames tok = some (.after t frames)) :
    Spells s.toList t := by
  obtain ⟨c, cs, hs⟩ := List.exists_cons_of_ne_nil hne
  rw [hs] at hrun htok ⊢
  exact .token (.run hrun htok) hbegin

mutual

/-- A value on one line is read as its tree, if its numbers are integers. -/
theorem spells_compact : (v : Value) → v.isWhole = true → Spells v.compact.toList v.tree
  | .null, _ => spells_run (by decide) rfl rfl fun _ => rfl
  | .bool true, _ => spells_run (by decide) rfl rfl fun _ => rfl
  | .bool false, _ => spells_run (by decide) rfl rfl fun _ => rfl
  | .number (.int n), _ =>
    spells_run (Numeral.decimal_ne_nil n) (Lexer.any_endsRun_decimal n) (Token.ofRun?_decimal n)
      fun _ => rfl
  | .text s, _ => .token (.quote s) fun _ => rfl
  | .array items, h => by
    have hitems := Spells.array (spells_items items (itemsAreWhole_iff.mp h))
    simpa [compact, tree, Printer.commas] using hitems
  | .object members, h => by
    have hmembers := Spells.object (spells_members members (membersAreWhole_iff.mp h))
    simpa [compact, tree, Printer.commas, Printer.compactObject, Function.comp_def, Spells.member]
      using hmembers

theorem spells_items : (items : List Value) → (∀ v ∈ items, v.isWhole = true) →
    List.Forall₂ Spells ((compactItems items).map String.toList) (trees items)
  | [], _ => .nil
  | v :: rest, h =>
    .cons (spells_compact v (h v List.mem_cons_self))
      (spells_items rest fun w hw => h w (List.mem_cons_of_mem v hw))

theorem spells_members : (members : List (String × Value)) →
    (∀ m ∈ members, m.2.isWhole = true) →
    List.Forall₂ Spells.Member ((compactMembers members).map fun m => (m.1, m.2.toList))
      (memberTrees members)
  | [], _ => .nil
  | (key, v) :: rest, h =>
    .cons ⟨rfl, spells_compact v (h (key, v) List.mem_cons_self)⟩
      (spells_members rest fun w hw => h w (List.mem_cons_of_mem (key, v) hw))

end

end Value

/-- A printed value is read as its tree. -/
theorem Tree.ofText?_compact {v : Value} (h : v.isWhole = true) :
    Tree.ofText? v.compact = some v.tree :=
  (v.spells_compact h).ofText?

end Linkage.Json
