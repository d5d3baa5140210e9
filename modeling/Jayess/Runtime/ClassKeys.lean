import Jayess.Runtime.ClassLayout

/-!
# The keys of an instance
-/

namespace Jayess.Runtime

open DynamicObject

variable {Value Function : Type*}

def reversedOrder : MapOrder := ⟨List.reverse, fun keys => keys.reverse_perm⟩

def appendNew (keys : List String) (name : String) : List String :=
  if name ∈ keys then keys else keys ++ [name]

theorem foldl_appendNew (keys names : List String) :
    ∃ added, names.foldl appendNew keys = keys ++ added ∧ added.Nodup ∧
      ∀ name, name ∈ added ↔ name ∈ names ∧ name ∉ keys := by
  induction names generalizing keys with
  | nil => exact ⟨[], (List.append_nil _).symm, List.nodup_nil, by simp⟩
  | cons first rest ih =>
      rw [List.foldl_cons, appendNew]
      by_cases hfirst : first ∈ keys
      · rw [if_pos hfirst]
        obtain ⟨added, heq, hnodup, hmem⟩ := ih keys
        refine ⟨added, heq, hnodup, fun name => ?_⟩
        rw [hmem, List.mem_cons]
        constructor
        · exact fun h => ⟨.inr h.1, h.2⟩
        · rintro ⟨rfl | hrest, hnot⟩
          · exact absurd hfirst hnot
          · exact ⟨hrest, hnot⟩
      · rw [if_neg hfirst]
        obtain ⟨added, heq, hnodup, hmem⟩ := ih (keys ++ [first])
        refine ⟨first :: added, by rw [heq, List.append_assoc]; rfl, ?_, fun name => ?_⟩
        · refine List.nodup_cons.mpr ⟨fun h => ?_, hnodup⟩
          exact ((hmem first).mp h).2 (List.mem_append_right _ (List.mem_singleton_self _))
        · rw [List.mem_cons, hmem, List.mem_append, List.mem_singleton, List.mem_cons]
          constructor
          · rintro (rfl | ⟨hrest, hnot⟩)
            · exact ⟨.inl rfl, hfirst⟩
            · exact ⟨.inr hrest, fun h => hnot (.inl h)⟩
          · rintro ⟨rfl | hrest, hnot⟩
            · exact .inl rfl
            · by_cases hsame : name = first
              · exact .inl hsame
              · exact .inr ⟨hrest, fun h => h.elim hnot hsame⟩

theorem foldl_appendNew_of_nodup {keys names : List String} (hnodup : names.Nodup) :
    names.foldl appendNew keys = keys ++ names.filter (· ∉ keys) := by
  induction names generalizing keys with
  | nil => rw [List.foldl_nil, List.filter_nil, List.append_nil]
  | cons first rest ih =>
      obtain ⟨hfirst, hrest⟩ := List.nodup_cons.mp hnodup
      rw [List.foldl_cons, ih hrest, appendNew, List.filter_cons]
      by_cases hmem : first ∈ keys
      · simp [hmem]
      · have hsame : rest.filter (· ∉ keys ++ [first]) = rest.filter (· ∉ keys) := by
          refine List.filter_congr fun name hname => ?_
          have hne : name ≠ first := fun heq => hfirst (heq ▸ hname)
          simp [hne]
        rw [if_neg hmem, if_pos (decide_eq_true hmem), hsame, List.append_assoc]
        rfl

/-- A class with the calls of `DefineField` that filled its table, in order. -/
structure DeclaredClass (Value Function : Type*) where
  layout : ClassLayout Value Function
  calls : List (String × Value)
  fields_eq : layout.fields = calls.foldl (fun fields call => fields.insert call.1 call.2) ∅

namespace DeclaredClass

variable (declared : DeclaredClass Value Function) (classes : List (DeclaredClass Value Function))

def names : List String := declared.calls.map Prod.fst

theorem mem_keys_foldl {calls : List (String × Value)} {fields : PropertyMap Value} {name : String} :
    name ∈ (calls.foldl (fun fields call => fields.insert call.1 call.2) fields).keys ↔
      name ∈ calls.map Prod.fst ∨ name ∈ fields.keys := by
  induction calls generalizing fields with
  | nil => simp
  | cons call rest ih =>
      rw [List.foldl_cons, ih, ← AList.mem_keys, AList.mem_insert, AList.mem_keys, List.map_cons,
        List.mem_cons]
      tauto

theorem mem_keys {name : String} : name ∈ declared.layout.fields.keys ↔ name ∈ declared.names := by
  rw [declared.fields_eq, mem_keys_foldl]
  simp [names]

def chain : ClassChain Value Function := classes.map layout

def allNames : List (DeclaredClass Value Function) → List String
  | [] => []
  | declared :: parents => allNames parents ++ declared.names

/-- The keys an instance should list: an ancestor's before those of a descendant, in the order of the
declarations, and a field that is declared again where it was. -/
def declaredKeys : List String := (allNames classes).foldl appendNew []

def AddsOne (parents : List (DeclaredClass Value Function)) : Prop :=
  ∀ first ∈ declared.names, ∀ second ∈ declared.names, first ∉ allNames parents →
    second ∉ allNames parents → first = second

end DeclaredClass

section Instance

variable {orders : FieldOrders Value Function} {object : ClassObject Value Function} {name : String}

theorem ordered_foldl_copyTo {get : String → Option Value} {keys : List String}
    (hordered : object.Ordered) (hget : ∀ key ∈ keys, (get key).isSome) :
    (keys.foldl (copyTo get setNamedProperty) object).Ordered ∧
      (keys.foldl (copyTo get setNamedProperty) object).order = keys.foldl appendNew object.order := by
  induction keys generalizing object with
  | nil => exact ⟨hordered, rfl⟩
  | cons key rest ih =>
      obtain ⟨hkey, hrest⟩ := List.forall_mem_cons.mp hget
      obtain ⟨value, hvalue⟩ := Option.isSome_iff_exists.mp hkey
      have hfirst : copyTo get setNamedProperty object key = object.setNamedProperty key value := by
        rw [copyTo, hvalue]
      have horder : (object.setNamedProperty key value).order = appendNew object.order key := by
        rw [order_set, appendNew]
        simp only [hordered.mem]
      rw [List.foldl_cons, List.foldl_cons, hfirst, ← horder]
      exact ih (hordered.set key value) hrest

theorem ordered_of_public {first second : ClassObject Value Function} (hordered : first.Ordered)
    (hproperties : second.properties = first.properties) (horder : second.order = first.order) :
    second.Ordered where
  nodup := horder ▸ hordered.nodup
  mem key := by
    rw [horder, getNamedProperty_congr hproperties]
    exact hordered.mem key

end Instance

namespace DeclaredClass

variable {orders : FieldOrders Value Function} {declared : DeclaredClass Value Function}
  {parents classes : List (DeclaredClass Value Function)} {name : String}

def rangedNames (orders : FieldOrders Value Function) : List (DeclaredClass Value Function) → List String
  | [] => []
  | declared :: parents =>
      rangedNames orders parents ++ (orders.fields declared.layout).range declared.layout.fields.keys

theorem mem_range : name ∈ (orders.fields declared.layout).range declared.layout.fields.keys ↔
    name ∈ declared.names := by
  rw [((orders.fields declared.layout).perm _).mem_iff, mem_keys]

theorem nodup_range : ((orders.fields declared.layout).range declared.layout.fields.keys).Nodup :=
  ((orders.fields declared.layout).perm _).nodup_iff.mpr declared.layout.fields.nodupKeys

theorem initializeInstance_spec {object : ClassObject Value Function} (hordered : object.Ordered) :
    ((chain classes).initializeInstance orders object).Ordered ∧
      ((chain classes).initializeInstance orders object).order =
        (rangedNames orders classes).foldl appendNew object.order ∧
      ∀ name, ((chain classes).initializeInstance orders object).getNamedProperty name =
        ((chain classes).findSome? (·.fields.lookup name)).or (object.getNamedProperty name) := by
  induction classes with
  | nil => exact ⟨hordered, rfl, fun name => rfl⟩
  | cons declared parents ih =>
      obtain ⟨hinner, horder, hlookup⟩ := ih
      have hkeys : ∀ key ∈ (orders.fields declared.layout).range declared.layout.fields.keys,
          (declared.layout.fields.lookup key).isSome := fun key hkey =>
        AList.lookup_isSome.mpr (((orders.fields declared.layout).perm _).mem_iff.mp hkey)
      obtain ⟨hpublic, hranged⟩ := ordered_foldl_copyTo hinner hkeys
      have hprivate := foldl_copyPrivate declared.layout.privateFields.lookup
        ((orders.privateFields declared.layout).range declared.layout.privateFields.keys)
        (((orders.fields declared.layout).range declared.layout.fields.keys).foldl
          (copyTo declared.layout.fields.lookup setNamedProperty)
          ((chain parents).initializeInstance orders object))
      rw [chain, List.map_cons, ← chain, ClassChain.initializeInstance]
      refine ⟨ordered_of_public hpublic hprivate.1 hprivate.2.1, ?_, fun name => ?_⟩
      · rw [hprivate.2.1, hranged, horder, rangedNames, List.foldl_append]
      · have hmem : name ∈ (orders.fields declared.layout).range declared.layout.fields.keys ↔
            (declared.layout.fields.lookup name).isSome := by
          rw [((orders.fields declared.layout).perm _).mem_iff, AList.lookup_isSome]
          rfl
        rw [getNamedProperty_congr hprivate.1, foldl_copyTo (fun _ _ _ => getNamedProperty_set_self)
          (fun _ _ _ _ hne => getNamedProperty_set_of_ne hne), hlookup, List.findSome?_cons]
        simp only [hmem, and_self]
        cases declared.layout.fields.lookup name with
        | none => rfl
        | some value => rfl

def keysIn (orders : FieldOrders Value Function) (classes : List (DeclaredClass Value Function)) :
    List String := (rangedNames orders classes).foldl appendNew []

theorem newInstance_spec :
    ((chain classes).newInstance orders).keys = keysIn orders classes ∧
      ∀ name, ((chain classes).newInstance orders).getNamedProperty name =
        (chain classes).findSome? (·.fields.lookup name) := by
  obtain ⟨hordered, horder, hlookup⟩ := @initializeInstance_spec _ _ orders classes
    { (newObject : ClassObject Value Function) with ofClass := some (chain classes) }
    (Ordered.of_blank rfl rfl)
  refine ⟨hordered.keys_eq.trans horder, fun name => (hlookup name).trans ?_⟩
  exact Option.or_none

theorem mem_rangedNames : name ∈ rangedNames orders classes ↔ name ∈ allNames classes := by
  induction classes with
  | nil => exact Iff.rfl
  | cons declared parents ih =>
      rw [rangedNames, allNames, List.mem_append, List.mem_append, ih, mem_range]

theorem mem_foldl_appendNew {names : List String} :
    name ∈ names.foldl appendNew [] ↔ name ∈ names := by
  obtain ⟨added, heq, -, hmem⟩ := foldl_appendNew [] names
  rw [heq, List.nil_append, hmem]
  exact and_iff_left List.not_mem_nil

theorem nodup_foldl_appendNew {names : List String} : (names.foldl appendNew []).Nodup := by
  obtain ⟨added, heq, hnodup, -⟩ := foldl_appendNew [] names
  rwa [heq]

theorem length_keysIn : (keysIn orders classes).length = (declaredKeys classes).length := by
  refine List.Perm.length_eq ((List.perm_ext_iff_of_nodup nodup_foldl_appendNew
    nodup_foldl_appendNew).mpr fun name => ?_)
  rw [mem_foldl_appendNew, mem_foldl_appendNew, mem_rangedNames]

/-- The ranges show the fields in the order of the declarations, the same for any two orders. -/
def KeepsOrder (classes : List (DeclaredClass Value Function)) : Prop :=
  (∀ first second : FieldOrders Value Function,
    ((chain classes).newInstance first).keys = ((chain classes).newInstance second).keys) ∧
  ∀ orders : FieldOrders Value Function,
    ((chain classes).newInstance orders).keys = declaredKeys classes ∧
      ∀ name, ((chain classes).newInstance orders).getNamedProperty name =
        (chain classes).findSome? (·.fields.lookup name)

/-- No class adds two fields to those of its ancestors. -/
def EachAddsOne : List (DeclaredClass Value Function) → Prop
  | [] => True
  | declared :: parents => declared.AddsOne parents ∧ EachAddsOne parents

theorem eq_of_reverse_eq {names : List String} (hnodup : names.Nodup) (hreverse : names.reverse = names)
    {first second : String} (hfirst : first ∈ names) (hsecond : second ∈ names) : first = second := by
  cases names with
  | nil => exact absurd hfirst List.not_mem_nil
  | cons name rest =>
      rw [List.reverse_cons] at hreverse
      cases hrest : rest.reverse with
      | nil =>
          obtain rfl := List.reverse_eq_nil_iff.mp hrest
          exact (List.mem_singleton.mp hfirst).trans (List.mem_singleton.mp hsecond).symm
      | cons last before =>
          rw [hrest, List.cons_append, List.cons.injEq] at hreverse
          have hmem : last ∈ rest := List.mem_reverse.mp (hrest ▸ List.mem_cons_self)
          rw [hreverse.1] at hmem
          exact absurd hmem (List.nodup_cons.mp hnodup).1

theorem eq_of_mem_iff {first second : List String} (hfirst : first.Nodup) (hsecond : second.Nodup)
    (hmem : ∀ name, name ∈ first ↔ name ∈ second)
    (hone : ∀ name ∈ first, ∀ other ∈ first, name = other) : first = second := by
  have hperm := (List.perm_ext_iff_of_nodup hfirst hsecond).mpr hmem
  rcases first with _ | ⟨name, _ | ⟨other, rest⟩⟩
  · exact hperm.nil_eq
  · exact List.singleton_perm.mp hperm
  · have heq : other = name := hone other (by simp) name (by simp)
    rw [heq] at hfirst
    exact absurd List.mem_cons_self (List.nodup_cons.mp hfirst).1

theorem keysIn_eq_iff :
    (∀ orders : FieldOrders Value Function, keysIn orders classes = declaredKeys classes) ↔
      EachAddsOne classes := by
  induction classes with
  | nil => exact iff_of_true (fun _ => rfl) trivial
  | cons declared parents ih =>
      -- what the class adds, in the order of its range and in that of its calls
      have hranged := fun orders : FieldOrders Value Function =>
        (List.foldl_append (f := appendNew) (b := []) (l := rangedNames orders parents)).trans
          (foldl_appendNew_of_nodup (@nodup_range _ _ orders declared))
      obtain ⟨added, hadded, hnodup, hmem⟩ := foldl_appendNew (declaredKeys parents) declared.names
      have hdeclared : declaredKeys (declared :: parents) = declaredKeys parents ++ added :=
        List.foldl_append.trans hadded
      have hstep : ∀ orders : FieldOrders Value Function,
          keysIn orders (declared :: parents) = declaredKeys (declared :: parents) ↔
            keysIn orders parents = declaredKeys parents ∧
              ((orders.fields declared.layout).range declared.layout.fields.keys).filter
                (· ∉ declaredKeys parents) = added := by
        intro orders
        rw [hdeclared, keysIn, rangedNames, hranged, ← keysIn]
        constructor
        · intro heq
          obtain ⟨hparents, hadds⟩ := List.append_inj heq length_keysIn
          exact ⟨hparents, hparents ▸ hadds⟩
        · rintro ⟨hparents, hadds⟩
          rw [hparents, hadds]
      rw [forall_congr' hstep, forall_and, ih, EachAddsOne, and_comm]
      refine and_congr_left fun _ => ⟨fun hadds => ?_, fun hone orders => ?_⟩
      · intro first hfirst second hsecond hnewFirst hnewSecond
        have hlisted := hadds ⟨fun _ => .insertion, fun _ => .insertion⟩
        have hreversed := hadds ⟨fun _ => reversedOrder, fun _ => .insertion⟩
        have hnames : ∀ name ∈ declared.names, name ∉ allNames parents → name ∈ added :=
          fun name hname hnew => (hmem name).mpr ⟨hname, fun h => hnew (mem_foldl_appendNew.mp h)⟩
        refine eq_of_reverse_eq hnodup ?_ (hnames first hfirst hnewFirst)
          (hnames second hsecond hnewSecond)
        rw [← hlisted, ← List.filter_reverse, hlisted]
        exact hreversed
      · refine eq_of_mem_iff (nodup_range.filter _) hnodup (fun name => ?_) fun first hfirst second
          hsecond => ?_
        · rw [List.mem_filter, mem_range, hmem, decide_eq_true_iff]
        · rw [List.mem_filter, mem_range, decide_eq_true_iff, declaredKeys, mem_foldl_appendNew] at *
          exact hone first hfirst.1 second hsecond.1 hfirst.2 hsecond.2

/-- Instances list the declared keys, whatever the order of the maps, exactly where no class of the chain
adds two fields. -/
theorem keepsOrder_iff (classes : List (DeclaredClass Value Function)) :
    KeepsOrder classes ↔ EachAddsOne classes := by
  rw [← keysIn_eq_iff]
  constructor
  · intro hkeeps orders
    rw [← newInstance_spec.1]
    exact (hkeeps.2 orders).1
  · intro heq
    refine ⟨fun first second => ?_, fun orders => ⟨?_, newInstance_spec.2⟩⟩
    · rw [newInstance_spec.1, newInstance_spec.1, heq, heq]
    · rw [newInstance_spec.1, heq]

/-- A class with two fields. -/
def point : DeclaredClass Nat Unit where
  layout := ((ClassLayout.newClass 0 "Point").defineField "x" 1).defineField "y" 2
  calls := [("x", 1), ("y", 2)]
  fields_eq := rfl

/-- Two ranges over the fields list the keys of a point in two ways. -/
theorem point_keys_differ : ¬KeepsOrder [point] := by
  intro hkeeps
  have hsame := hkeeps.1 ⟨fun _ => .insertion, fun _ => .insertion⟩
    ⟨fun _ => reversedOrder, fun _ => .insertion⟩
  exact absurd hsame (by decide)

end DeclaredClass

end Jayess.Runtime
