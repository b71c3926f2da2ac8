import ExprLang.Proofs.Typing.Outcomes

/-!
# Scoping

The symbols of a checker and its scope stay in step (`Scope.Finds`), and items use earlier symbols only
(`Item.AreOrdered`).  One statement keeps both, and so does a run of statements; so the program of every source is
scoped (`Source.program_isScoped`).
-/

namespace ExprLang

namespace Item

/-- The symbol that an item defines. -/
def defined? : Item → Option SymbolId
  | definition id _ => some id
  | expression _ => none

/-- The terms of an item. -/
def terms : Item → List Term
  | definition _ value => value.toList
  | expression value => [value]

/-- Whether items define some of the first `count` symbols, in their order, by values with earlier symbols. -/
structure AreOrdered (count : Nat) (items : List Item) : Prop where
  increasing : (items.filterMap defined?).Pairwise fun id later => id.index < later.index
  defined : ∀ item ∈ items, ∀ id ∈ item.defined?, id.index < count ∧ ∀ term ∈ item.terms, term.IsBound id.index

private theorem AreOrdered.mono {items : List Item} {count more : Nat} (h : AreOrdered count items)
    (hle : count ≤ more) :
    AreOrdered more items :=
  ⟨h.increasing, fun item hmem id hid =>
    ⟨Nat.lt_of_lt_of_le (h.defined item hmem id hid).1 hle, (h.defined item hmem id hid).2⟩⟩

end Item

/-- Whether symbols have the names that they are spelled with, no two the same, and a scope finds them. -/
structure Scope.Finds (text : List Char) (symbols : Array Symbol) (scope : Scope) : Prop where
  spelled : ∀ symbol ∈ symbols.toList, sliceOf text symbol.span = .ok symbol.name
  distinct : (symbols.toList.map Symbol.name).Nodup
  below : scope.IsBelow symbols.size
  found : ∀ name, symbols.find? (·.name == name) = (scope.find? name).bind fun id => symbols[id.index]?

variable {text : List Char} {before after : CheckerState} {symbol : Symbol}

/-! ### Steps -/

private theorem Scope.finds_empty (text : List Char) : Scope.empty.Finds text #[] where
  spelled _ hmem := absurd hmem List.not_mem_nil
  distinct := List.nodup_nil
  below _ hmem := absurd hmem List.not_mem_nil
  found _ := rfl

/-- A symbol whose name was free can be added. -/
private theorem Scope.Finds.defines (h : before.scope.Finds text before.symbols)
    (hdefines : before.Defines text symbol after) :
    after.scope.Finds text after.symbols where
  spelled := by
    rw [hdefines.symbols, Array.toList_push, List.forall_mem_append, List.forall_mem_singleton]
    exact ⟨h.spelled, hdefines.spelled⟩
  distinct := by
    have hfresh := h.found symbol.name
    rw [hdefines.free, Option.bind_none, Array.find?_eq_none] at hfresh
    rw [hdefines.symbols, Array.toList_push, List.map_append, List.map_singleton, List.nodup_append]
    refine ⟨h.distinct, List.nodup_singleton _, fun name hname other hother => ?_⟩
    obtain ⟨earlier, hearlier, rfl⟩ := List.mem_map.1 hname
    rw [List.mem_singleton.1 hother]
    have hdiffers := hfresh earlier (Array.mem_toList_iff.1 hearlier)
    simpa using hdiffers
  below := by
    rw [IsBelow, hdefines.scope, hdefines.symbols, Array.size_push, List.forall_mem_append, List.forall_mem_singleton]
    exact ⟨fun entry hmem => Nat.lt_succ_of_lt (h.below entry hmem), Nat.lt_succ_self _⟩
  found name := by
    have hfound := h.found name
    rw [find?, hdefines.scope, List.lookup_append, hdefines.symbols, Array.find?_push, hfound]
    cases hlookup : before.scope.find? name with
    | some id =>
      have hlt := h.below.index_lt_of_find? hlookup
      have hlookup : before.scope.entries.lookup name = some id := hlookup
      rw [hlookup, Option.some_or, Option.bind_some, Option.bind_some, Array.getElem?_push_lt hlt,
        Array.getElem?_eq_getElem hlt, Option.some_or]
    | none =>
      have hlookup : before.scope.entries.lookup name = none := hlookup
      rw [hlookup, Option.bind_none, Option.none_or, Option.none_or]
      by_cases hname : symbol.name = name
      · subst hname
        simp
      · have hother : (name == symbol.name) = false := beq_false_of_ne fun h => hname h.symm
        simp [List.lookup, hname, hother]

namespace Checker

variable {statement : Statement} {outcome : Outcome Item} {items items' : Array Item} {statements : List Statement}

/-- A statement keeps symbols and scope in step. -/
private theorem Checked.finds (h : Checked text statement before outcome after)
    (hbefore : before.scope.Finds text before.symbols) : after.scope.Finds text after.symbols := by
  cases h with
  | definition _ hdefines => exact hbefore.defines hdefines
  | expression hreports =>
    rw [hreports.scope, hreports.symbols]
    exact hbefore
  | rejected hreports =>
    rw [hreports.scope, hreports.symbols]
    exact hbefore
  | declared _ hdefines => exact hbefore.defines hdefines

/-- Symbols are only added. -/
private theorem Checked.symbols_prefix (h : Checked text statement before outcome after) :
    before.symbols.toList <+: after.symbols.toList := by
  cases h with
  | definition _ hdefines =>
    rw [hdefines.symbols, Array.toList_push]
    exact List.prefix_append _ _
  | expression hreports => rw [hreports.symbols]
  | rejected hreports => rw [hreports.symbols]
  | declared _ hdefines =>
    rw [hdefines.symbols, Array.toList_push]
    exact List.prefix_append _ _

/-- The terms of an item have symbols of earlier statements only. -/
private theorem Checked.isBound_of_mem_terms {item : Item} (h : Checked text statement before (.done item) after) :
    ∀ term ∈ item.terms, term.IsBound before.symbols.size := by
  cases h with
  | definition _ _ _ hvalue => exact fun term hmem => hvalue term (Option.mem_toList.1 hmem)
  | expression _ hvalue => exact List.forall_mem_singleton.2 hvalue

/-- A statement that fails adds its own name at most, with its declared type. -/
private theorem Checked.of_failed (h : Checked text statement before .failed after) :
    (after.scope = before.scope ∧ after.symbols = before.symbols) ∨
      ∃ symbol, statement.Declares text symbol ∧ before.Defines text symbol after := by
  cases h with
  | rejected hreports => exact .inl ⟨hreports.scope, hreports.symbols⟩
  | declared hdeclares hdefines => exact .inr ⟨_, hdeclares, hdefines⟩

private theorem Checked.size_le (h : Checked text statement before outcome after) :
    before.symbols.size ≤ after.symbols.size := by
  rw [← Array.length_toList, ← Array.length_toList]
  exact h.symbols_prefix.length_le

/-- An item is in order after the items of earlier statements. -/
private theorem Checked.areOrdered {item : Item} (h : Checked text statement before (.done item) after)
    (hitems : Item.AreOrdered before.symbols.size items.toList) :
    Item.AreOrdered after.symbols.size (items.push item).toList := by
  have hkept := hitems.mono h.size_le
  rw [Array.toList_push]
  cases h with
  | @definition symbol value _ _ hdefines _ hvalue =>
    have hlast : [Item.definition ⟨before.symbols.size⟩ value].filterMap Item.defined? = [⟨before.symbols.size⟩] := rfl
    refine ⟨?_, ?_⟩
    · rw [List.filterMap_append, hlast, List.pairwise_append]
      refine ⟨hitems.increasing, List.pairwise_singleton _ _, fun id hid later hlater => ?_⟩
      rw [List.mem_singleton.1 hlater]
      obtain ⟨item, hmem, hdefined⟩ := List.mem_filterMap.1 hid
      exact (hitems.defined item hmem id hdefined).1
    · rw [List.forall_mem_append, List.forall_mem_singleton]
      refine ⟨hkept.defined, fun id hid => ?_⟩
      obtain rfl : ⟨before.symbols.size⟩ = id := Option.some.inj hid
      refine ⟨?_, fun term hmem => hvalue term (Option.mem_toList.1 hmem)⟩
      rw [hdefines.symbols, Array.size_push]
      exact Nat.lt_succ_self _
  | @expression value _ hreports hvalue =>
    have hlast : [Item.expression value].filterMap Item.defined? = [] := rfl
    refine ⟨?_, ?_⟩
    · rw [List.filterMap_append, hlast, List.append_nil]
      exact hitems.increasing
    · rw [List.forall_mem_append, List.forall_mem_singleton]
      exact ⟨hkept.defined, fun id hid => absurd hid (Option.not_mem_none _)⟩

/-! ### Runs -/

private theorem Runs.finds (h : Runs text statements items before items' after)
    (hbefore : before.scope.Finds text before.symbols) : after.scope.Finds text after.symbols := by
  induction h with
  | nil => exact hbefore
  | item _ hchecked _ ih => exact ih (hchecked.finds hbefore)
  | failure _ hchecked _ ih => exact ih (hchecked.finds hbefore)

private theorem Runs.areOrdered (h : Runs text statements items before items' after)
    (hitems : Item.AreOrdered before.symbols.size items.toList) :
    Item.AreOrdered after.symbols.size items'.toList := by
  induction h with
  | nil => exact hitems
  | item _ hchecked _ ih => exact ih (hchecked.areOrdered hitems)
  | failure _ hchecked _ ih => exact ih (hitems.mono hchecked.size_le)

/-- Symbols and items are only added. -/
private theorem Runs.prefixes (h : Runs text statements items before items' after) :
    before.symbols.toList <+: after.symbols.toList ∧ items.toList <+: items'.toList := by
  induction h with
  | nil => exact ⟨List.prefix_rfl, List.prefix_rfl⟩
  | item _ hchecked _ ih =>
    rw [Array.toList_push] at ih
    exact ⟨hchecked.symbols_prefix.trans ih.1, (List.prefix_append _ _).trans ih.2⟩
  | failure _ hchecked _ ih => exact ⟨hchecked.symbols_prefix.trans ih.1, ih.2⟩

/-- A run stops between any two statements. -/
private theorem Runs.split {front back : List Statement} (h : Runs text (front ++ back) items before items' after) :
    ∃ items'' middle, Runs text front items before items'' middle ∧ Runs text back items'' middle items' after := by
  induction front generalizing items before with
  | nil => exact ⟨items, before, .nil, h⟩
  | cons statement front ih =>
    cases h with
    | item hrun hchecked hrest =>
      obtain ⟨items'', middle, hfront, hback⟩ := ih hrest
      exact ⟨items'', middle, .item hrun hchecked hfront, hback⟩
    | failure hrun hchecked hrest =>
      obtain ⟨items'', middle, hfront, hback⟩ := ih hrest
      exact ⟨items'', middle, .failure hrun hchecked hfront, hback⟩

end Checker

/-! ### Sources -/

namespace Source

/-- The program of every source has distinct names, as they are spelled, and finds the symbols that the scope leads to.
Its definitions stand in the order of their symbols, and their values have earlier symbols only.  Each statement has
symbols of the statements before it only; and if it fails, it adds its own name at most, with its declared type. -/
theorem program_isScoped (name : String) (content : List Char) :
    ∃ statements reports program last,
      (ofContent name content).statements = (.done statements, reports) ∧
      Checker.checkAll (ofContent name content).text statements (.start reports) = (.done program, last) ∧
      (ofContent name content).program statements reports = (.done program, last.diagnostics) ∧
      (program.symbols.toList.map Symbol.name).Nodup ∧
      (∀ symbol ∈ program.symbols.toList, sliceOf (ofContent name content).text symbol.span = .ok symbol.name) ∧
      (∀ name id, last.scope.find? name = some id → id.index < program.symbols.size) ∧
      (∀ name, program.find? name = (last.scope.find? name).bind fun id => program.symbols[id.index]?) ∧
      ((program.items.filterMap Item.defined?).Pairwise fun id later => id.index < later.index) ∧
      (∀ id value, .definition id value ∈ program.items →
        id.index < program.symbols.size ∧ ∀ term ∈ value, term.IsBound id.index) ∧
      ∀ front statement back, statements = front ++ statement :: back →
        ∃ items before outcome after,
          Checker.checkStatements (ofContent name content).text front #[] (.start reports) = (.done items, before) ∧
          Checker.checkStatement (ofContent name content).text statement before = (outcome, after) ∧
          before.symbols.toList <+: after.symbols.toList ∧ after.symbols.toList <+: program.symbols.toList ∧
          ((∃ item rest, outcome = .done item ∧ program.items = items.toList ++ item :: rest ∧
              ∀ term ∈ item.terms, term.IsBound before.symbols.size) ∨
            outcome = .failed ∧ ((after.scope = before.scope ∧ after.symbols = before.symbols) ∨
              ∃ symbol, statement.Declares (ofContent name content).text symbol ∧
                before.Defines (ofContent name content).text symbol after)) := by
  obtain ⟨statements, reports, items, last, hstatements, hruns⟩ := exists_runs name content
  have hfinds : last.scope.Finds (ofContent name content).text last.symbols := hruns.finds (Scope.finds_empty _)
  have hordered : Item.AreOrdered last.symbols.size items.toList :=
    hruns.areOrdered ⟨List.Pairwise.nil, fun _ hmem => absurd hmem List.not_mem_nil⟩
  refine ⟨statements, reports, _, last, hstatements, hruns.checkAll_eq, program_of_runs hruns, hfinds.distinct,
    hfinds.spelled, fun name id hfound => hfinds.below.index_lt_of_find? hfound, hfinds.found, hordered.increasing,
    fun id value hmem => ?_, fun front statement back hsplit => ?_⟩
  · obtain ⟨hlt, hvalue⟩ := hordered.defined _ hmem id rfl
    exact ⟨hlt, fun term hterm => hvalue term (Option.mem_toList.2 hterm)⟩
  · rw [hsplit] at hruns
    obtain ⟨items', before, hfront, hback⟩ := hruns.split
    cases hback with
    | @item _ _ _ _ item after _ _ hrun hchecked hrest =>
      obtain ⟨hsymbols, rest, hitems⟩ := hrest.prefixes
      refine ⟨items', before, _, after, hfront.checkStatements_eq, hrun, hchecked.symbols_prefix, hsymbols,
        .inl ⟨item, rest, rfl, ?_, hchecked.isBound_of_mem_terms⟩⟩
      rw [← hitems, Array.toList_push, List.append_assoc, List.singleton_append]
    | @failure _ _ _ _ after _ _ hrun hchecked hrest =>
      exact ⟨items', before, _, after, hfront.checkStatements_eq, hrun, hchecked.symbols_prefix, hrest.prefixes.1,
        .inr ⟨rfl, hchecked.of_failed⟩⟩

end Source

end ExprLang
