import Mathlib.Data.Int.Notation
import Mathlib.Data.List.Basic
import Mathlib.Data.String.Basic

/-!
# Images of a pod template

A template lists its containers and its init containers. An update names a
container by its type and its name and says which image it runs and which it
shall run. A patch finds the container by its index and tests both before it
replaces the image; it is applied as a whole or not at all.
-/

set_option autoImplicit false

namespace Radar.WorkloadImages

def containerTypeRegular : String := "container"

def containerTypeInit : String := "initContainer"

/-- A name or an image that is missing or no text is none. -/
structure Container where
  name : Option String
  image : Option String
  rest : String
  deriving DecidableEq

/-- What stands in a list of containers. -/
inductive Entry where
  | container (c : Container)
  | malformed (raw : String)
  deriving DecidableEq

def Entry.name : Entry → Option String
  | container c => c.name
  | malformed _ => none

inductive Containers where
  | absent
  | malformed (raw : String)
  | list (entries : List Entry)
  deriving DecidableEq

def Containers.entries : Containers → List Entry
  | list entries => entries
  | _ => []

structure PodTemplate where
  containers : Containers
  initContainers : Containers
  rest : String
  deriving DecidableEq

namespace PodTemplate

def field (t : PodTemplate) (typeName : String) : Containers :=
  if typeName = containerTypeInit then t.initContainers else t.containers

def setField (t : PodTemplate) (typeName : String) (c : Containers) : PodTemplate :=
  if typeName = containerTypeInit then { t with initContainers := c } else { t with containers := c }

end PodTemplate

structure WorkloadImageUpdate where
  type : String
  name : String
  previousImage : String
  image : String
  deriving DecidableEq

/-- How an API request fails. -/
inductive ApiError where
  | invalid (msg : String)
  | notFound
  | other (msg : String)
  deriving DecidableEq

def ApiError.isInvalid : ApiError → Bool
  | invalid _ => true
  | _ => false

inductive UpdateError where
  | unsupported (kind : String)
  | unsupportedRef (msg : String)
  | invalid (msg : String)
  | terminating (workload : String)
  | conflict (msg : String)
  | api (doing : String) (err : ApiError)
  deriving DecidableEq

section Inventory

structure WorkloadContainerImage where
  type : String
  name : String
  image : String
  deriving DecidableEq

def fieldName (typeName : String) : String :=
  if typeName = containerTypeInit then "initContainers" else "containers"

def fieldPath (templatePath : List String) (typeName : String) : String :=
  ".".intercalate (templatePath++["spec",fieldName typeName])

def containerImage (templatePath : List String) (typeName : String) :
    Entry → Except UpdateError WorkloadContainerImage
  | .malformed _ =>
    .error (.invalid (fieldPath templatePath typeName++" contains a malformed entry"))
  | .container c =>
    match c.name, c.image with
    | some name, some image =>
      if name = "" || image = "" then
        .error (.invalid "every container must have a name and image")
      else .ok ⟨typeName,name,image⟩
    | _, _ => .error (.invalid "every container must have a name and image")

def listImages (templatePath : List String) (typeName : String) :
    Containers → Except UpdateError (List WorkloadContainerImage)
  | .malformed _ => .error (.invalid (fieldPath templatePath typeName++" is malformed"))
  | .absent =>
    if typeName = containerTypeRegular then .error (.invalid "workload has no containers") else .ok []
  | .list entries => entries.mapM (containerImage templatePath typeName)

def inventoryContainerImages (templatePath : List String) (t : PodTemplate) :
    Except UpdateError (List WorkloadContainerImage) := do
  let containers ← listImages templatePath containerTypeRegular t.containers
  let initContainers ← listImages templatePath containerTypeInit t.initContainers
  return containers++initContainers

end Inventory

section Validate

/-- The check of one update, those before it having been checked. -/
def validateUpdate (seen : List (String × String)) (u : WorkloadImageUpdate) :
    Except UpdateError (List (String × String)) :=
  if u.type ≠ containerTypeRegular ∧ u.type ≠ containerTypeInit then
    .error (.invalid ("unknown container type "++u.type.quote))
  else if u.name = "" ∨ u.previousImage = "" ∨ u.image = "" then
    .error (.invalid "container name, previous image, and new image are required")
  else if u.image = u.previousImage then
    .error (.invalid ("image for "++u.name++" is unchanged"))
  else if (u.type,u.name) ∈ seen then .error (.invalid ("duplicate update for "++u.name))
  else .ok ((u.type,u.name)::seen)

def validateImageUpdates (updates : List WorkloadImageUpdate) : Except UpdateError Unit :=
  if updates = [] then .error (.invalid "at least one changed image is required")
  else if 64 < updates.length then .error (.invalid "at most 64 images can be changed at once")
  else do
    let _ ← updates.foldlM validateUpdate []
    return ()

end Validate

section Patch

inductive Leaf where
  | name
  | image
  deriving DecidableEq

/-- A place in the lists of a template: the list, the index and the field. -/
structure Pointer where
  type : String
  index : ℕ
  leaf : Leaf
  deriving DecidableEq

inductive Operation where
  | test (path : Pointer) (value : String)
  | replace (path : Pointer) (value : String)
  deriving DecidableEq

def Container.leaf (c : Container) : Leaf → Option String
  | .name => c.name
  | .image => c.image

def Container.setLeaf (c : Container) (value : String) : Leaf → Container
  | .name => { c with name := some value }
  | .image => { c with image := some value }

/-- A test wants the text at its place, a replacement some text there. -/
def applyOperation (t : PodTemplate) : Operation → Option PodTemplate
  | .test path value =>
    match (t.field path.type).entries[path.index]? with
    | some (.container c) => if c.leaf path.leaf = some value then some t else none
    | _ => none
  | .replace path value =>
    match (t.field path.type).entries[path.index]? with
    | some (.container c) =>
      if (c.leaf path.leaf).isSome then
        some (t.setField path.type (.list ((t.field path.type).entries.set path.index
          (.container (c.setLeaf value path.leaf)))))
      else none
    | _ => none

def applyPatch (t : PodTemplate) (ops : List Operation) : Option PodTemplate :=
  ops.foldlM applyOperation t

structure ImageLocation where
  typeName : String
  name : String
  index : ℕ
  deriving DecidableEq

def imageOperations (u : WorkloadImageUpdate) (index : ℕ) : List Operation :=
  [.test ⟨u.type,index,.name⟩ u.name,.test ⟨u.type,index,.image⟩ u.previousImage,
    .replace ⟨u.type,index,.image⟩ u.image]

def missingImageConflict (u : WorkloadImageUpdate) : UpdateError :=
  .conflict (u.type++" "++u.name.quote++" no longer exists; review the latest images before applying")

def imageConflict (u : WorkloadImageUpdate) (currentImage : String) : UpdateError :=
  .conflict ("image for "++u.type++" "++u.name.quote++" changed from "++u.previousImage.quote++
    " to "++currentImage.quote++"; review the latest images before applying")

/-- The operations for one update and where its container was found. -/
def buildUpdate (t : PodTemplate) (u : WorkloadImageUpdate) :
    Except UpdateError (List Operation × ImageLocation) :=
  match t.field u.type with
  | .list entries =>
    match entries.findIdx? fun e => decide (e.name = some u.name) with
    | none => .error (missingImageConflict u)
    | some index =>
      let currentImage :=
        match entries[index]? with
        | some (.container c) => c.image.getD ""
        | _ => ""
      if currentImage ≠ u.previousImage then .error (imageConflict u currentImage)
      else .ok (imageOperations u index,⟨u.type,u.name,index⟩)
  | _ => .error (missingImageConflict u)

def buildImagePatch (t : PodTemplate) (updates : List WorkloadImageUpdate) :
    Except UpdateError (List Operation × List ImageLocation) := do
  let built ← updates.mapM (buildUpdate t)
  return (built.flatMap Prod.fst,built.map Prod.snd)

end Patch

end Radar.WorkloadImages
