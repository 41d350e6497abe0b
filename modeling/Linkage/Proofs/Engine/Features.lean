import Linkage.Proofs.Engine.Assembly

namespace Linkage

/-- The values of all features, each with the name of its feature, in order. -/
def Features.values (features : Features) : List (String × Feature) :=
  features.entries.flatMap fun f => f.2.map fun value => (f.1, value)

namespace DataGroup

/-- The list is for features of this class. -/
def Takes : DataGroup → Option String → Prop
  | name, c => c = some "NAME"
  | address, c => c = some "ADDRESS"
  | phone, c => c = some "PHONE"
  | identifier, c => c = some "IDENTIFIER"
  | characteristic, c => c = some "ATTRIBUTE"
  | other, c =>
    c ∉ ["NAME", "ADDRESS", "PHONE", "IDENTIFIER", "ATTRIBUTE", "RELATIONSHIP"].map some

instance : (g : DataGroup) → (c : Option String) → Decidable (g.Takes c)
  | name, c => inferInstanceAs (Decidable (c = some "NAME"))
  | address, c => inferInstanceAs (Decidable (c = some "ADDRESS"))
  | phone, c => inferInstanceAs (Decidable (c = some "PHONE"))
  | identifier, c => inferInstanceAs (Decidable (c = some "IDENTIFIER"))
  | characteristic, c => inferInstanceAs (Decidable (c = some "ATTRIBUTE"))
  | other, c => inferInstanceAs (Decidable (c ∉ List.map some _))

/-- A value with its labels before it: what it is used for, if that is told, and in most lists the
name of its feature. -/
def labelled (g : DataGroup) (v : String × Feature) : String :=
  match v.2.usage.toList ++ if g ∈ [name, address, phone] then [] else [v.1] with
  | [] => v.2.text
  | labels => " ".intercalate labels ++ ": " ++ v.2.text

def all : List DataGroup := [name, address, phone, identifier, characteristic, other]

theorem mem_all (g : DataGroup) : g ∈ all := by
  cases g <;> decide

variable {g : DataGroup} {c : Option String}

theorem takes_iff : g.Takes c ↔ ofClass? c = some g := by
  unfold ofClass?
  split
  all_goals cases g <;> simp_all [Takes]

theorem hidden_iff : ofClass? c = none ↔ c = some "RELATIONSHIP" := by
  unfold ofClass?
  split <;> simp_all

theorem takes_unique {g' : DataGroup} (h : g.Takes c) (h' : g'.Takes c) : g = g' :=
  Option.some.inj ((takes_iff.mp h).symm.trans (takes_iff.mp h'))

theorem line_eq (feature : String) (f : Feature) : g.line feature f = g.labelled (feature, f) := by
  obtain ⟨text, usage⟩ := f
  cases usage <;> cases g <;> rfl

end DataGroup

/-! ## Filing -/

/-- What is in each list. -/
abbrev DataLists := DataGroup → List String

namespace DataLists

/-- One line more at the end of a list. -/
def add (lists : DataLists) (g : DataGroup) (line : String) : DataLists :=
  fun g' => if g' = g then lists g' ++ [line] else lists g'

@[simp] theorem add_self (lists : DataLists) (g : DataGroup) (line : String) :
    lists.add g line g = lists g ++ [line] := if_pos rfl

theorem add_of_ne (lists : DataLists) {g g' : DataGroup} (h : g' ≠ g) (line : String) :
    lists.add g line g' = lists g' := if_neg h

/-- One value is filed: as one line at the end of one list, which is for its feature's class, or
nowhere if that class is for relationships. -/
inductive Files (server : Server) (v : String × Feature) (lists : DataLists) : DataLists → Prop
  | hidden (h : server.classOf? v.1 = some "RELATIONSHIP") : Files server v lists lists
  | shown (g : DataGroup) (h : g.Takes (server.classOf? v.1)) :
    Files server v lists (lists.add g (g.labelled v))

/-- Values are filed one after another. -/
inductive FilesAll (server : Server) : List (String × Feature) → DataLists → DataLists → Prop
  | nil (lists : DataLists) : FilesAll server [] lists lists
  | cons {v : String × Feature} {rest : List (String × Feature)} {lists next last : DataLists}
    (h : Files server v lists next) (hrest : FilesAll server rest next last) :
    FilesAll server (v :: rest) lists last

/-- All lines, each with its list. -/
def lines (lists : DataLists) : List (DataGroup × String) :=
  DataGroup.all.flatMap fun g => (lists g).map fun line => (g, line)

variable {server : Server} {v : String × Feature} {values : List (String × Feature)}
  {lists next last : DataLists}

theorem Files.total (server : Server) (v : String × Feature) (lists : DataLists) :
    ∃ next, Files server v lists next := by
  cases hgroup : DataGroup.ofClass? (server.classOf? v.1) with
  | none => exact ⟨lists, .hidden (DataGroup.hidden_iff.mp hgroup)⟩
  | some g => exact ⟨_, .shown g (DataGroup.takes_iff.mpr hgroup)⟩

theorem FilesAll.total (server : Server) (values : List (String × Feature)) (lists : DataLists) :
    ∃ last, FilesAll server values lists last := by
  induction values generalizing lists with
  | nil => exact ⟨lists, .nil lists⟩
  | cons v rest ih =>
    obtain ⟨next, hnext⟩ := Files.total server v lists
    obtain ⟨last, hlast⟩ := ih next
    exact ⟨last, .cons hnext hlast⟩

/-- Filing a value gives a line to those lists that are for its class. -/
theorem Files.listed (h : Files server v lists next) (g : DataGroup) :
    next g = lists g ++ if g.Takes (server.classOf? v.1) then [g.labelled v] else [] := by
  cases h with
  | hidden hclass =>
    have hnot : ¬ g.Takes (server.classOf? v.1) := by
      rw [DataGroup.takes_iff, DataGroup.hidden_iff.mpr hclass]
      exact nofun
    rw [if_neg hnot, List.append_nil]
  | shown g' htakes =>
    by_cases hg : g = g'
    · subst hg
      rw [add_self, if_pos htakes]
    · rw [add_of_ne lists hg, if_neg fun h => hg (DataGroup.takes_unique h htakes),
        List.append_nil]

/-- A list then holds what it held before, and in order the values that it takes. -/
theorem FilesAll.listed (h : FilesAll server values lists last) (g : DataGroup) :
    last g = lists g ++
      (values.filter fun v => g.Takes (server.classOf? v.1)).map g.labelled := by
  induction h with
  | nil lists => exact (List.append_nil _).symm
  | @cons v rest lists next last hstep _ ih =>
    rw [ih, hstep.listed g, List.append_assoc, List.filter_cons]
    by_cases htakes : g.Takes (server.classOf? v.1) <;> simp [htakes]

/-- One line more is one line more in all. -/
theorem lines_add (lists : DataLists) (g : DataGroup) (line : String) :
    (lists.add g line).lines.Perm (lists.lines ++ [(g, line)]) := by
  obtain ⟨before, after, hall, hbefore, hafter⟩ :
      ∃ before after, DataGroup.all = before ++ g :: after ∧ g ∉ before ∧ g ∉ after := by
    obtain ⟨before, after, hall⟩ := List.append_of_mem (DataGroup.mem_all g)
    have hdistinct : (before ++ g :: after).Nodup := hall ▸ by decide
    have hothers := (List.nodup_middle.mp hdistinct).notMem
    exact ⟨before, after, hall, fun h => hothers (List.mem_append_left _ h),
      fun h => hothers (List.mem_append_right _ h)⟩
  have hsame (gs : List DataGroup) (h : g ∉ gs) :
      (gs.flatMap fun g' => (lists.add g line g').map fun line => (g', line)) =
        gs.flatMap fun g' => (lists g').map fun line => (g', line) := by
    apply List.flatMap_congr
    intro g' hg'
    have hne : g' ≠ g := by
      rintro rfl
      exact h hg'
    rw [add_of_ne lists hne]
  unfold lines
  rw [hall, List.flatMap_append, List.flatMap_cons, List.flatMap_append, List.flatMap_cons,
    hsame before hbefore, hsame after hafter, add_self, List.map_append, List.append_assoc,
    List.append_assoc, List.append_assoc]
  exact (List.perm_append_comm.append_left _).append_left _

/-- What filing one value adds to the lines: nothing, or one line in a list for its class. -/
theorem Files.conserved (h : Files server v lists next) :
    server.classOf? v.1 = some "RELATIONSHIP" ∧ next.lines = lists.lines ∨
      ∃ g : DataGroup, g.Takes (server.classOf? v.1) ∧
        next.lines.Perm (lists.lines ++ [(g, g.labelled v)]) := by
  cases h with
  | hidden hclass => exact .inl ⟨hclass, rfl⟩
  | shown g htakes => exact .inr ⟨g, htakes, lines_add lists g _⟩

/-- The line of a value, with a list that is for its class. -/
def Shows (server : Server) (v : String × Feature) (line : DataGroup × String) : Prop :=
  line.1.Takes (server.classOf? v.1) ∧ line.2 = line.1.labelled v

/-- Each value whose class is not for relationships adds one line, and nothing else does. -/
theorem FilesAll.conserved (h : FilesAll server values lists last) :
    ∃ lines, List.Forall₂ (Shows server)
        (values.filter fun v => server.classOf? v.1 ≠ some "RELATIONSHIP") lines ∧
      last.lines.Perm (lists.lines ++ lines) := by
  induction h with
  | nil lists => exact ⟨[], .nil, by rw [List.append_nil]⟩
  | @cons v rest lists next last hstep _ ih =>
    obtain ⟨lines, hshown, hlines⟩ := ih
    rcases hstep.conserved with ⟨hclass, hnext⟩ | ⟨g, htakes, hnext⟩
    · refine ⟨lines, ?_, hnext ▸ hlines⟩
      rwa [List.filter_cons_of_neg (by simpa using hclass)]
    · have hclass : server.classOf? v.1 ≠ some "RELATIONSHIP" := by
        intro hclass
        rw [DataGroup.takes_iff, DataGroup.hidden_iff.mpr hclass] at htakes
        cases htakes
      refine ⟨(g, g.labelled v) :: lines, ?_, ?_⟩
      · rw [List.filter_cons_of_pos (by simpa using hclass)]
        exact .cons ⟨htakes, rfl⟩ hshown
      · rw [← List.singleton_append, ← List.append_assoc]
        exact hlines.trans (hnext.append_right lines)

end DataLists

/-! ## Entities -/

namespace Features

variable {features : Features} {server : Server} {g : DataGroup}

/-- The values of one feature go to a list together, or not at all. -/
theorem filter_values (feature : String) (list : List Feature) :
    (((list.map fun value => (feature, value)).filter fun v =>
      g.Takes (server.classOf? v.1)).map g.labelled) =
        if DataGroup.ofClass? (server.classOf? feature) = some g then list.map (g.line feature)
        else [] := by
  by_cases htakes : g.Takes (server.classOf? feature)
  · rw [if_pos (DataGroup.takes_iff.mp htakes), List.filter_eq_self.mpr, List.map_map]
    · exact List.map_congr_left fun value _ => (DataGroup.line_eq feature value).symm
    · exact List.forall_mem_map.mpr fun _ _ => decide_eq_true htakes
  · rw [if_neg (mt DataGroup.takes_iff.mpr htakes), List.filter_eq_nil_iff.mpr, List.map_nil]
    exact List.forall_mem_map.mpr fun _ _ => by simpa using htakes

theorem shown_eq : features.shown server g =
    (features.values.filter fun v => g.Takes (server.classOf? v.1)).map g.labelled := by
  unfold shown values
  induction features.entries with
  | nil => rfl
  | cons f rest ih =>
    rw [List.flatMap_cons, List.flatMap_cons, List.filter_append, List.map_append, filter_values,
      ih]

end Features

/-- The lists of an entity. -/
def EntityProfile.data (p : EntityProfile) : DataLists
  | .name => p.nameData
  | .address => p.addressData
  | .phone => p.phoneData
  | .identifier => p.identifierData
  | .characteristic => p.characteristicData
  | .other => p.otherData

/-- A value as it was read, but that an empty usage counts as none. -/
structure Feature.Keeps (f shown : Feature) : Prop where
  text : shown.text = f.text
  usage : shown.usage = if f.usage = some "" then none else f.usage

/-- An entity with its values in lists. All features are there, by name, with all their values in
order. The values have been filed in the order of their features' names, so each list has those of
its classes in this order, and all lists together have one line for each value that is shown. -/
structure EntityProfile.Groups (server : Server) (e : Resolved) (p : EntityProfile) : Prop where
  features : List.Forall₂ (fun f kept => kept.1 = f.1 ∧ List.Forall₂ Feature.Keeps f.2 kept.2)
    e.features.entries p.features.entries
  names : p.features.keys.Pairwise (· < ·)
  filed : DataLists.FilesAll server p.features.values (fun _ => []) p.data
  listed : ∀ g, p.data g =
    (p.features.values.filter fun v => g.Takes (server.classOf? v.1)).map g.labelled
  conserved : ∃ lines, List.Forall₂ (DataLists.Shows server)
      (p.features.values.filter fun v => server.classOf? v.1 ≠ some "RELATIONSHIP") lines ∧
    p.data.lines.Perm lines

theorem EntityProfile.ofResolved_groups (server : Server) (e : Resolved) :
    (ofResolved server e).Groups server e := by
  have hlisted (g : DataGroup) : (ofResolved server e).data g =
      ((ofResolved server e).features.values.filter fun v =>
        g.Takes (server.classOf? v.1)).map g.labelled := by
    rw [← Features.shown_eq]
    cases g <;> rfl
  -- filing all values in turn comes to the lists that the profile takes from the features at once
  obtain ⟨last, hlast⟩ :=
    DataLists.FilesAll.total server (ofResolved server e).features.values fun _ => []
  have hdata : last = (ofResolved server e).data := by
    funext g
    rw [hlast.listed g, hlisted g, List.nil_append]
  rw [hdata] at hlast
  refine ⟨?_, (ofResolved server e).features.increasing, hlast, hlisted, hlast.conserved⟩
  rw [ofResolved, Text.Table.map, List.forall₂_map_right_iff, List.forall₂_same]
  intro f _
  refine ⟨rfl, ?_⟩
  rw [List.forall₂_map_right_iff, List.forall₂_same, Feature.normal_eq]
  intro value _
  exact ⟨rfl, rfl⟩

/-- An entity of a document in an entry of a result, its values in lists. -/
def DocumentEntity.GroupedAs (server : Server) (e : DocumentEntity) (entry : EntityEntry) : Prop :=
  entry.resolved.Groups server e.resolved

theorem Document.entries_grouped (server : Server) (d : Document) :
    List.Forall₂ (DocumentEntity.GroupedAs server) d.entities (d.entries server) := by
  rw [entries, List.forall₂_map_right_iff, List.forall₂_same]
  exact fun e _ => EntityProfile.ofResolved_groups server e.resolved

/-! ## Overrides -/

/-- The classes of a server with overrides: that of the last override of a feature; that of
well-known features for the others. -/
structure Server.Overrides (server : Server) (overrides : List (String × String)) : Prop where
  overridden : ∀ before after feature named, overrides = before ++ (feature, named) :: after →
    (∀ o ∈ after, o.1 ≠ feature) → server.classOf? feature = some named
  builtIn : ∀ feature, (∀ o ∈ overrides, o.1 ≠ feature) →
    server.classOf? feature = Server.builtInClass? feature

/-- Of two overrides of a feature the later counts. -/
theorem Server.make_overrides (sources : List String) (overrides : List (String × String))
    (native : Option NativeInfo) : (make sources overrides native).Overrides overrides := by
  constructor
  · rintro before after feature named rfl hlast
    have hafter : (after.reverse.find? fun o => o.1 == feature) = none := by
      simpa using hlast
    rw [classOf?, make, Text.Sorted.find?_table, List.reverse_append, List.reverse_cons]
    simp [hafter]
  · intro feature hnone
    have hfind : (overrides.reverse.find? fun o => o.1 == feature) = none := by
      simpa using hnone
    rw [classOf?, make, Text.Sorted.find?_table, hfind]

/-! ## Results -/

/-- **Features are grouped.** Whatever the text and whatever the classes of features, results have
the entities of their document with all their values in lists. With overrides, the class of a
feature is that of its last override, and otherwise the one that is built in. -/
theorem features_are_grouped :
    (∀ (server : Server) (raw : String) (d : Document), Document.ofText? raw = some d →
      (∀ r, PathResult.read server raw = .ok r →
        ∃ entries, r.entities.Perm entries ∧
          List.Forall₂ (DocumentEntity.GroupedAs server) d.entities entries) ∧
      ∃ r, NetworkResult.read server raw = .ok r ∧
        List.Forall₂ (DocumentEntity.GroupedAs server) d.entities r.entities) ∧
    ∀ sources overrides native, (Server.make sources overrides native).Overrides overrides := by
  refine ⟨?_, Server.make_overrides⟩
  intro server raw d hd
  have hentries := d.entries_grouped server
  constructor
  · intro r hr
    obtain ⟨d', hd', hr⟩ := PathResult.read_ok.mp hr
    cases hd.symm.trans hd'
    exact ⟨d.entries server, (PathResult.ofDocument?_assembles hr).entities, hentries⟩
  · refine ⟨NetworkResult.ofDocument server d, ?_, hentries⟩
    rw [NetworkResult.read, Document.read_ok.mpr hd]
    rfl

/-- An entity with an empty feature, an empty usage, a relationship feature, and a feature that is
overridden below. -/
def described : Document where
  paths := []
  entities :=
    [⟨⟨1, none,
      ⟨[("ADDRESS", []), ("NAME", [⟨"John Smith", some "PRIMARY"⟩, ⟨"Jon Smyth", some ""⟩]),
        ("REL_POINTER", [⟨"SPOUSE", none⟩]), ("SHOE_SIZE", [⟨"11", none⟩, ⟨"12", some "OLD"⟩])],
        by decide +kernel⟩,
      []⟩, []⟩]
  limitReached := none

theorem described_grouped :
    ∃ r, NetworkResult.read (Server.make [] [("SHOE_SIZE", "PHONE"), ("SHOE_SIZE", "SIZE")] none)
        described.text = .ok r ∧
      List.Forall₂ (DocumentEntity.GroupedAs
          (Server.make [] [("SHOE_SIZE", "PHONE"), ("SHOE_SIZE", "SIZE")] none))
        described.entities r.entities ∧
      r.entities.map (fun e => (e.resolved.nameData, e.resolved.phoneData, e.resolved.otherData)) =
        [(["PRIMARY: John Smith", "Jon Smyth"], [], ["SHOE_SIZE: 11", "OLD SHOE_SIZE: 12"])] := by
  have htext : Document.ofText? described.text = some described :=
    described.ofText?_text
  obtain ⟨r, hr, hgroups⟩ := (features_are_grouped.1 _ _ _ htext).2
  refine ⟨r, hr, hgroups, ?_⟩
  rw [NetworkResult.read, Document.read_ok.mpr htext] at hr
  cases hr
  decide +kernel

end Linkage
