import Hypertext.Tree.Store

/-! # Nodes

A node is a mapping with a tag, and with attributes and content only where there are any. A node
keeps copies of the attributes and the content it was made from.
-/

namespace Hypertext.Store

set_option autoImplicit false

/-- The entries that a sequence of pairs stands for. A pair is anything of length two. -/
def pairEntries (store : Store) : Nat → List Slot → Outcome (List (Value × Slot)) × Store
  | _, [] => (.ok [], store)
  | index, pair :: rest =>
    match store.members pair with
    | (.error _, store) =>
      (.error (.wrongType ("cannot convert dictionary update sequence element #" ++
        toString index ++ " to a sequence")), store)
    | (.ok [key, value], store) =>
      let key := store.view key
      match key.checkKey, pairEntries store (index + 1) rest with
      | .error fault, _ => (.error fault, store)
      | .ok (), (.error fault, store) => (.error fault, store)
      | .ok (), (.ok entries, store) => (.ok ((key, value) :: entries), store)
    | (.ok parts, store) => (.error (.argument (.pairLength index parts.length)), store)

/-- A fresh mapping with the entries of another one, or with those that a sequence of pairs
stands for. -/
def copyMapping (store : Store) (slot : Slot) : Outcome Slot × Store :=
  match store.cell? slot with
  | some (.map _ entries) =>
    let (copy, store) := store.alloc (.map .dict entries)
    (.ok copy, store)
  | _ =>
    match store.members slot with
    | (.error fault, store) => (.error fault, store)
    | (.ok pairs, store) =>
      match store.pairEntries 0 pairs with
      | (.error fault, store) => (.error fault, store)
      | (.ok entries, store) =>
        let (copy, store) := store.alloc (.map .dict (Entries.ofPairs entries))
        (.ok copy, store)

/-- The entry under a key with a copy of what was given, when that counts as true. -/
def copiedEntry (store : Store) (key : String) (given : Slot)
    (copy : Store → Slot → Outcome Slot × Store) : Outcome (List (Value × Slot)) × Store :=
  if store.truthy given then
    match copy store given with
    | (.ok slot, store) => (.ok [(.str key, slot)], store)
    | (.error fault, store) => (.error fault, store)
  else (.ok [], store)

def copyMembers (store : Store) (slot : Slot) : Outcome Slot × Store :=
  match store.members slot with
  | (.ok items, store) =>
    let (copy, store) := store.alloc (.seq .list items)
    (.ok copy, store)
  | (.error fault, store) => (.error fault, store)

def newElement (store : Store) (tag attributes content : Slot) : Outcome Slot × Store :=
  match store.copiedEntry "attrs" attributes copyMapping with
  | (.error fault, store) => (.error fault, store)
  | (.ok attributeEntry, store) =>
    match store.copiedEntry "content" content copyMembers with
    | (.error fault, store) => (.error fault, store)
    | (.ok contentEntry, store) =>
      let (node, store) :=
        store.alloc (.map .node ((.str "tag", tag) :: (attributeEntry ++ contentEntry)))
      (.ok node, store)

def field (store : Store) (slot : Slot) (key : String) : Slot :=
  (store.fieldAt? slot key).getD .none

def nodeTag (store : Store) (node : Slot) : Slot := store.field node "tag"

def attributesOf? (store : Store) (node : Slot) : Option Slot :=
  let attributes := store.field node "attrs"
  if store.truthy attributes then some attributes else none

/-- A view of all attributes. A text can be looked into by position, and so is refused only when
its keys are asked for. -/
def nodeAttributes (store : Store) (node : Slot) : Outcome (List (Value × Slot)) :=
  match store.attributesOf? node with
  | none => .ok []
  | some attributes =>
    match store.cell? attributes, attributes with
    | some (.map _ entries), _ => .ok entries
    | none, .atom (.str _) | none, .atom (.bytes _) =>
      .error (store.lacksMember attributes "keys")
    | _, _ =>
      .error (.wrongType ("mappingproxy() argument must be a mapping, not " ++
        store.typeName attributes))

def nodeContent (store : Store) (node : Slot) : Outcome (List Slot) × Store :=
  let content := store.field node "content"
  if store.truthy content then store.members content else (.ok [], store)

def getAttribute (store : Store) (node : Slot) (name : Value) (default : Slot) : Outcome Slot := do
  match store.attributesOf? node with
  | none =>
    name.checkKey
    return default
  | some attributes =>
    match store.cell? attributes with
    | some (.map _ entries) =>
      name.checkKey
      return (Entries.get? entries name).getD default
    | _ => throw (store.lacksMember attributes "get")

def setAttribute (store : Store) (node : Slot) (name : Value) (value : Slot) : Outcome Store :=
  if !Options.isText name then .error .attributeName
  else
    match store.fieldAt? node "attrs" with
    | none =>
      let (attributes, store) := store.alloc (.map .dict [(name, value)])
      .ok (store.setField node (.str "attrs") attributes)
    | some attributes => store.assignItem attributes name value

def eraseField (store : Store) (slot : Slot) (key : Value) : Store :=
  match slot with
  | .atom _ => store
  | .ref r =>
    match store.get? r with
    | some (.map kind entries) => store.put r (.map kind (Entries.erase entries key))
    | _ => store

def occursIn (part : List Char) : List Char → Bool
  | [] => part.isEmpty
  | c :: rest => part.isPrefixOf (c :: rest) || occursIn part rest

/-- Whether a name is found in attributes that are no mapping. -/
def holdsName (store : Store) (attributes : Slot) (name : Value) : Outcome Bool :=
  match store.cell? attributes, attributes, name with
  | some (.seq _ items), _, _ => .ok (items.any fun item => (store.view item).same name)
  | _, .atom (.str s), .str part => .ok (occursIn part.toList s.toList)
  | _, .atom (.str _), _ =>
    .error (.wrongType ("'in <string>' requires string as left operand, not " ++ name.typeName))
  | _, .atom (.bytes _), _ =>
    .error (.wrongType ("a bytes-like object is required, not '" ++ name.typeName ++ "'"))
  | _, _, _ =>
    .error (.wrongType ("argument of type '" ++ store.typeName attributes ++ "' is not iterable"))

def refusesDeletion (store : Store) (slot : Slot) (key : Value) : Fault :=
  match store.cell? slot with
  | some (.seq kind _) =>
    if kind.isMutable then store.refusesItem slot key
    else .wrongType ("'" ++ kind.typeName ++ "' object doesn't support item deletion")
  | _ => .wrongType ("'" ++ store.typeName slot ++ "' object doesn't support item deletion")

/-- Removes an attribute and says whether it was there. The last one takes the key with it. -/
def removeAttribute (store : Store) (node : Slot) (name : Value) : Outcome (Bool × Store) := do
  match store.attributesOf? node with
  | none => return (false, store)
  | some attributes =>
    match store.cell? attributes with
    | some (.map _ entries) =>
      name.checkKey
      if Entries.contains entries name then
        let rest := store.eraseField attributes name
        if (Entries.erase entries name).isEmpty then
          return (true, rest.eraseField node (.str "attrs"))
        else return (true, rest)
      else return (false, store)
    | _ =>
      if ← store.holdsName attributes name then throw (store.refusesDeletion attributes name)
      else return (false, store)

end Hypertext.Store
