/-
This file says which workspace addresses are read as they were written.

The names of the parameters are apart, so each field is read by itself. A text and a
number come back. A list comes back exactly where none of its texts contains a comma,
which is what it is joined with. The numbers of a viewport come back, in the order in
which the reader sets them, and the comparison of two viewports looks at that order.
-/

import Senars.UiContract.WorkspaceAddress

namespace Senars.UiContract

open Library JsNumber

/-! ### The addresses of the statement -/

/-- The address with what the encoder leaves out read as absent. -/
def withoutDefaults (address : WorkspaceAddress) : WorkspaceAddress :=
  { address with
    aspect := address.aspect.filter (· ≠ "content")
    depth := address.depth.filter (· ≠ 0)
    time := address.time.filter (· ≠ "live")
    renderer := address.renderer.filter (· ≠ "graph-2d")
    layer := address.layer.filter (· ≠ "both")
    selection := address.selection.filter (· ≠ [])
    overlays := address.overlays.filter (· ≠ [])
    folded := address.folded.filter (· ≠ [])
    panels := address.panels.filter (· ≠ []) }

/-- The lists of ids. -/
def WorkspaceAddress.idLists (address : WorkspaceAddress) : List (Option (List String)) :=
  [address.selection, address.overlays, address.folded, address.panels]

/-- A number of the script that is finite. -/
def IsFiniteDouble (number : JsNumber) : Prop := IsDouble number ∧ ∃ value, number = .finite value

/-- No text is empty, and every number is finite. -/
structure WorkspaceAddress.WellFormed (address : WorkspaceAddress) : Prop where
  texts : ∀ text ∈ [address.aspect, address.time, address.renderer, address.lens, address.layer,
    address.layout], text ≠ some ""
  ids : ∀ ids ∈ address.idLists, "" ∉ ids.getD []
  depth : ∀ depth ∈ address.depth, IsFiniteDouble depth
  viewport : ∀ viewport ∈ address.viewport, ∀ key, IsFiniteDouble (viewport.at key)

/-! ### The fields -/

theorem readAddress_addressParams (address : WorkspaceAddress) :
    readAddress (addressParams address) =
      { focus := address.focus
        aspect := textParam (some "content") address.aspect
        depth := ((address.depth.filter (· ≠ 0)).map numberToString).map numberOf
        time := textParam (some "live") address.time
        renderer := textParam (some "graph-2d") address.renderer
        selection := readList (listParam address.selection)
        overlays := readList (listParam address.overlays)
        lens := textParam none address.lens
        layer := textParam (some "both") address.layer
        layout := textParam none address.layout
        viewport := readViewport (address.viewport.map viewportText)
        folded := readList (listParam address.folded)
        panels := readList (listParam address.panels) } := by
  simp [readAddress, addressParams, SearchParams.get_setGiven, SearchParams.get_set,
    SearchParams.get_nil]

theorem textParam_some {text} (nonempty : text ≠ some "") (byDefault : String) :
    textParam (some byDefault) text = text.filter (· ≠ byDefault) := by
  cases text with
  | none => rfl
  | some text =>
    have nonempty : text ≠ "" := fun same => nonempty (congrArg some same)
    rw [textParam, Option.filter_some, Option.filter_some]
    by_cases same : byDefault = text
    · simp [nonempty, same]
    · simp [nonempty, same, Ne.symm same]

theorem textParam_none {text} (nonempty : text ≠ some "") : textParam none text = text := by
  cases text with
  | none => rfl
  | some text =>
    have nonempty : text ≠ "" := fun same => nonempty (congrArg some same)
    rw [textParam]
    simp [nonempty]

theorem sameNumber_numberOf {number} (finite : ∀ value ∈ number, IsFiniteDouble value) :
    sameNumber ((number.map numberToString).map numberOf) number = true := by
  cases number with
  | none => rfl
  | some number =>
    obtain ⟨double, value, rfl⟩ := finite number rfl
    show (!isNaN (numberOf (numberToString _)) && decide (numberOf (numberToString _) = _)) = true
    rw [numberOf_numberToString double]
    simp

theorem readList_listParam_iff {ids} (nonempty : "" ∉ ids.getD []) :
    (readList (listParam ids)).getD [] = (ids.filter (· ≠ [])).getD [] ↔
      ∀ id ∈ ids.getD [], ',' ∉ id.toList := by
  cases ids with
  | none => simp [listParam, readList]
  | some ids =>
    cases ids with
    | nil => simp [listParam, readList, Option.filter_some]
    | cons id ids =>
      have joined : join "," (id :: ids) ≠ "" :=
        join_ne_empty fun same => nonempty (same ▸ List.mem_cons_self)
      have reads : readList (listParam (some (id :: ids))) =
          some (splitText ',' (join "," (id :: ids))) := by
        simp [listParam, readList, Option.filter_some, joined]
      rw [reads]
      exact splitText_join_iff (List.cons_ne_nil id ids)

/-! ### The viewport -/

theorem comma_not_mem_numberToString {number} (finite : IsFiniteDouble number) :
    ',' ∉ (numberToString number).toList := by
  obtain ⟨_, value, rfl⟩ := finite
  have isNumber : JsNumber.finite value ≠ .nan := nofun
  exact fun isIn => absurd ((numberToString_chars isNumber).2 ',' isIn) (by decide)

theorem viewportText_eq_join (viewport : Viewport) :
    viewportText viewport =
      join "," [numberToString viewport.x, numberToString viewport.y,
        numberToString viewport.zoom] := by
  simp only [viewportText, join_cons_cons, join_singleton, String.append_assoc]

theorem readViewport_viewportText {viewport} (finite : ∀ key, IsFiniteDouble (viewport.at key)) :
    readViewport (some (viewportText viewport)) =
      some { viewport with keys := [.x, .y, .zoom], isOrder := List.Perm.refl _ } := by
  have apart : ∀ text ∈ [numberToString viewport.x, numberToString viewport.y,
      numberToString viewport.zoom], ',' ∉ text.toList := by
    simp only [List.forall_mem_cons]
    exact ⟨comma_not_mem_numberToString (finite .x), comma_not_mem_numberToString (finite .y),
      comma_not_mem_numberToString (finite .zoom), nofun⟩
  have splits : splitText ',' (viewportText viewport) =
      [numberToString viewport.x, numberToString viewport.y, numberToString viewport.zoom] := by
    rw [viewportText_eq_join]
    exact (splitText_join_iff (List.cons_ne_nil _ _)).mpr apart
  have written : viewportText viewport ≠ "" := by
    rw [viewportText_eq_join]
    obtain ⟨_, value, same⟩ := finite .x
    refine join_ne_empty fun empty => (numberToString_chars ?_).1 (congrArg String.toList empty)
    exact fun nan => absurd (same.symm.trans nan) nofun
  have number : ∀ key, (viewport.at key).isNaN = false := by
    intro key
    obtain ⟨_, value, same⟩ := finite key
    rw [same]
    rfl
  have x : viewport.x.isNaN = false := number .x
  have y : viewport.y.isNaN = false := number .y
  have zoom : viewport.zoom.isNaN = false := number .zoom
  have readX : numberOf (numberToString viewport.x) = viewport.x :=
    numberOf_numberToString (finite .x).1
  have readY : numberOf (numberToString viewport.y) = viewport.y :=
    numberOf_numberToString (finite .y).1
  have readZoom : numberOf (numberToString viewport.zoom) = viewport.zoom :=
    numberOf_numberToString (finite .zoom).1
  simp [readViewport, Option.filter_some, written, splits, readX, readY, readZoom, x, y, zoom]

theorem viewportJson_eq_iff {viewport} :
    viewportJson { viewport with keys := [.x, .y, .zoom], isOrder := List.Perm.refl _ } =
      viewportJson viewport ↔ viewport.keys = [.x, .y, .zoom] := by
  refine ⟨fun same => ?_, fun keys => ?_⟩
  · have names := congrArg (List.map Prod.fst) same
    rw [viewportJson, viewportJson] at names
    simpa [Function.comp_def] using names.symm
  · rw [viewportJson, viewportJson, keys]
    rfl

/-! ### The round trip -/

theorem withoutHash_of_noHash {hash} (noHash : hash.toList.head? ≠ some '#') :
    withoutHash hash = hash := by
  unfold withoutHash
  split
  · rename_i same
    rw [same] at noHash
    exact absurd rfl noHash
  · rfl

/-- An address is read back exactly where no id contains a comma and the viewport, if there is
one, has its keys in the order of the reader. -/
theorem addressEquals_decodeAddress_iff {text : SearchParamsText} {address : WorkspaceAddress}
    (wellFormed : address.WellFormed) (roundTrips : text.RoundTrips (addressParams address)) :
    addressEquals (decodeAddress text (encodeAddress text address)) (withoutDefaults address) =
        true ↔
      (∀ ids ∈ address.idLists, ∀ id ∈ ids.getD [], ',' ∉ id.toList) ∧
        ∀ viewport ∈ address.viewport, viewport.keys = [.x, .y, .zoom] := by
  have reads : decodeAddress text (encodeAddress text address) =
      readAddress (addressParams address) := by
    rw [decodeAddress, encodeAddress, withoutHash_of_noHash roundTrips.noHash,
      roundTrips.parse_print]
  have viewports : (readViewport (address.viewport.map viewportText)).map viewportJson =
      address.viewport.map viewportJson ↔
        ∀ viewport ∈ address.viewport, viewport.keys = [.x, .y, .zoom] := by
    cases there : address.viewport with
    | none => simp [readViewport]
    | some viewport =>
      rw [Option.map_some, readViewport_viewportText (wellFormed.viewport viewport there)]
      simpa using viewportJson_eq_iff
  obtain ⟨aspect, time, renderer, lens, layer, layout, _⟩ := by
    simpa only [List.forall_mem_cons] using wellFormed.texts
  obtain ⟨selection, overlays, folded, panels, _⟩ := by
    simpa only [WorkspaceAddress.idLists, List.forall_mem_cons] using wellFormed.ids
  have depth : sameNumber (((address.depth.filter (· ≠ 0)).map numberToString).map numberOf)
      (address.depth.filter (· ≠ 0)) = true :=
    sameNumber_numberOf fun value isIn => wellFormed.depth value (Option.mem_filter_iff.mp isIn).1
  rw [reads, readAddress_addressParams]
  simp only [addressEquals, withoutDefaults, Bool.and_eq_true, decide_eq_true_eq,
    textParam_some aspect, textParam_some time, textParam_some renderer, textParam_some layer,
    textParam_none lens, textParam_none layout, depth, viewports, readList_listParam_iff selection,
    readList_listParam_iff overlays, readList_listParam_iff folded, readList_listParam_iff panels,
    WorkspaceAddress.idLists, List.forall_mem_cons]
  simp only [List.not_mem_nil, false_imp_iff, implies_true, and_true, true_and]
  tauto

/-! ### Two addresses of one text -/

/-- The address of a selection. -/
def selecting (ids : List String) : WorkspaceAddress where
  focus := "mind"
  aspect := none
  depth := none
  time := none
  renderer := none
  selection := some ids
  overlays := none
  lens := none
  layer := none
  layout := none
  viewport := none
  folded := none
  panels := none

/-- The text of the address that selects a and b, and of the one that selects a,b. -/
def selectionText : SearchParamsText where
  print _ := "focus=mind&selection=a%2Cb"
  parse _ := [("focus", "mind"), ("selection", "a,b")]

theorem addressEquals_decodeAddress_iff_selection :
    addressEquals (decodeAddress selectionText (encodeAddress selectionText (selecting ["a", "b"])))
      (withoutDefaults (selecting ["a", "b"])) = true := by
  have wellFormed : (selecting ["a", "b"]).WellFormed :=
    ⟨by decide, by decide, nofun, nofun⟩
  have roundTrips : selectionText.RoundTrips (addressParams (selecting ["a", "b"])) :=
    ⟨by decide, by decide⟩
  exact (addressEquals_decodeAddress_iff wellFormed roundTrips).mpr ⟨by decide, nofun⟩

theorem selection_with_comma_lost :
    addressEquals (decodeAddress selectionText (encodeAddress selectionText (selecting ["a,b"])))
      (withoutDefaults (selecting ["a,b"])) = false := by
  decide

end Senars.UiContract
