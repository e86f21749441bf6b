/-
This file is the workspace address: what the workspace shows, written as the
parameters of one text and read from them again.

How parameters are written as a text is an argument. Numbers are written and read as
the script does. Two arrays of texts have one JSON text exactly where they are equal,
so they are compared themselves; the JSON text of a viewport has its keys in the order
in which they were set, which a viewport therefore keeps.
-/

import Senars.Library.NumberWriting
import Senars.Library.SearchParams

namespace Senars.UiContract

open Library

/-! ### Addresses -/

inductive ViewportKey where
  | x | y | zoom
  deriving DecidableEq

/-- Where the viewport is, and in what order its keys were set. -/
structure Viewport where
  x : JsNumber
  y : JsNumber
  zoom : JsNumber
  keys : List ViewportKey
  isOrder : keys.Perm [.x, .y, .zoom]
  deriving DecidableEq

def Viewport.at (viewport : Viewport) : ViewportKey → JsNumber
  | .x => viewport.x
  | .y => viewport.y
  | .zoom => viewport.zoom

structure WorkspaceAddress where
  focus : String
  aspect : Option String
  depth : Option JsNumber
  time : Option String
  renderer : Option String
  selection : Option (List String)
  overlays : Option (List String)
  lens : Option String
  layer : Option String
  layout : Option String
  viewport : Option Viewport
  folded : Option (List String)
  panels : Option (List String)
  deriving DecidableEq

/-! ### Writing an address -/

/-- A text that is there, is not empty and is not the default. -/
def textParam (byDefault : Option String) (text : Option String) : Option String :=
  text.filter fun text => text ≠ "" && byDefault ≠ some text

/-- The texts of a list that has any. -/
def listParam (texts : Option (List String)) : Option String :=
  (texts.filter (· ≠ [])).map (join ",")

/-- The three numbers of a viewport. -/
def viewportText (viewport : Viewport) : String :=
  numberToString viewport.x ++ "," ++ numberToString viewport.y ++ "," ++
    numberToString viewport.zoom

/-- The parameters of an address. -/
def addressParams (address : WorkspaceAddress) : SearchParams :=
  SearchParams.set [] "focus" address.focus
    |>.setGiven "aspect" (textParam (some "content") address.aspect)
    |>.setGiven "depth" ((address.depth.filter (· ≠ 0)).map numberToString)
    |>.setGiven "time" (textParam (some "live") address.time)
    |>.setGiven "renderer" (textParam (some "graph-2d") address.renderer)
    |>.setGiven "selection" (listParam address.selection)
    |>.setGiven "overlays" (listParam address.overlays)
    |>.setGiven "lens" (textParam none address.lens)
    |>.setGiven "layer" (textParam (some "both") address.layer)
    |>.setGiven "layout" (textParam none address.layout)
    |>.setGiven "viewport" (address.viewport.map viewportText)
    |>.setGiven "folded" (listParam address.folded)
    |>.setGiven "panels" (listParam address.panels)

def encodeAddress (text : SearchParamsText) (address : WorkspaceAddress) : String :=
  text.print (addressParams address)

/-! ### Reading an address -/

/-- `hash.replace(/^#/, '')`. -/
def withoutHash (hash : String) : String :=
  match hash.toList with
  | '#' :: chars => String.ofList chars
  | _ => hash

/-- The texts of a value that is there and is not empty. -/
def readList (value : Option String) : Option (List String) :=
  (value.filter (· ≠ "")).map (splitText ',')

/-- The first three parts of a value, where each is a number. -/
def readViewport (value : Option String) : Option Viewport :=
  match (value.filter (· ≠ "")).map fun text => (splitText ',' text).map numberOf with
  | some (x :: y :: zoom :: _) =>
    if x.isNaN || y.isNaN || zoom.isNaN then none
    else some ⟨x, y, zoom, [.x, .y, .zoom], List.Perm.refl _⟩
  | _ => none

/-- The address of these parameters. -/
def readAddress (params : SearchParams) : WorkspaceAddress where
  focus := (params.get "focus").getD "mind"
  aspect := params.get "aspect"
  depth := (params.get "depth").map numberOf
  time := params.get "time"
  renderer := params.get "renderer"
  selection := readList (params.get "selection")
  overlays := readList (params.get "overlays")
  lens := params.get "lens"
  layer := params.get "layer"
  layout := params.get "layout"
  viewport := readViewport (params.get "viewport")
  folded := readList (params.get "folded")
  panels := readList (params.get "panels")

def decodeAddress (text : SearchParamsText) (hash : String) : WorkspaceAddress :=
  readAddress (text.parse (withoutHash hash))

/-! ### Comparing addresses -/

/-- The JSON text of a number. -/
def jsonNumber : JsNumber → String
  | .finite value => numberToString (.finite value)
  | _ => "null"

/-- The names and values in the JSON text of a viewport. -/
def viewportJson (viewport : Viewport) : List (ViewportKey × String) :=
  viewport.keys.map fun key => (key, jsonNumber (viewport.at key))

/-- `===` of two numbers that need not be there. Not a number does not equal itself. -/
def sameNumber : Option JsNumber → Option JsNumber → Bool
  | none, none => true
  | some first, some second => !first.isNaN && first = second
  | _, _ => false

/-- Whether two workspace addresses are equivalent. -/
def addressEquals (a b : WorkspaceAddress) : Bool :=
  a.focus = b.focus && a.aspect = b.aspect &&
    sameNumber a.depth b.depth && a.time = b.time && a.renderer = b.renderer &&
    a.selection.getD [] = b.selection.getD [] && a.overlays.getD [] = b.overlays.getD [] &&
    a.lens = b.lens && a.layer = b.layer && a.layout = b.layout &&
    a.viewport.map viewportJson = b.viewport.map viewportJson &&
    a.folded.getD [] = b.folded.getD [] && a.panels.getD [] = b.panels.getD []

end Senars.UiContract
