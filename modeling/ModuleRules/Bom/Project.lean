import ModuleRules.Bom.Basic
import ModuleRules.File.Tree
import ModuleRules.Template.Render

/-!
# Generated projects

A project is generated from bills of materials: a directory named for them,
with a project file that a template is rendered to.
-/

namespace ModuleRules

/-! ## Data of the template

The fields of each record are in ascending order. -/

def BomDependency.toJson (d : BomDependency) : Json :=
  .record [Json.field "artifact_id" (.text d.artifact),
    Json.field "classifier" (.orNull d.classifier), Json.field "group_id" (.text d.group),
    Json.field "scope" (.orNull d.scope), Json.field "type" (.orNull d.kind),
    Json.field "version" (.orNull d.version)]

def Bom.toJson (b : Bom) : Json :=
  .record [Json.field "artifact_id" (.text b.artifact),
    Json.field "dependencies" (.array (b.dependencies.map BomDependency.toJson)),
    Json.field "group_id" (.orNull b.group), Json.field "version" (.orNull b.version)]

def Bom.projectData (bs : List Bom) : Json :=
  .record [Json.field "boms" (.array (bs.map Bom.toJson)),
    Json.field "name" (.text (Bom.projectName bs))]

/-! ## Generation -/

inductive ProjectError
  | noTemplate (path : Text)
  | templateUnreadable (path : Text) (fault : FileFault)
  | bomUnreadable (path : Text) (fault : FileFault)
  | bomNameless (path : Text)
  | directoryExists (path : Text)
  | directoryFault (path : Text) (fault : FileFault)
  | unrendered (e : TemplateError)
  | unwritable (path : Text) (fault : FileFault)
  deriving DecidableEq, Repr

def ProjectError.message : ProjectError → Text
  | noTemplate path =>
    "Unable to proceed without a template for generating a project descriptor: " ++ path ++
      " not found"
  | templateUnreadable path fault => "Failed to read template " ++ path ++ ": " ++ fault.message
  | bomUnreadable path fault => "Failed to read BOM " ++ path ++ ": " ++ fault.message
  | bomNameless path => "Invalid BOM " ++ path ++ ": " ++ Bom.nameMissing
  | directoryExists path => "Unable to create " ++ path ++ ": already exists"
  | directoryFault path fault => "Unable to create " ++ path ++ ": " ++ fault.message
  | unrendered e => "Failed to render project template: " ++ e.message
  | unwritable path fault => "Failed to write " ++ path ++ ": " ++ fault.message

structure ProjectBuilder where
  template : Text
  target : Text
  skip : List Text := []

namespace ProjectBuilder

def projectFile : Text := "pom.xml"

def readTemplate (b : ProjectBuilder) (t : FileTree) : Except ProjectError Text :=
  if !t.isFile b.template then .error (.noTemplate b.template)
  else (t.readText b.template).mapError (.templateUnreadable b.template)

def readBom (t : FileTree) (path : Text) : Except ProjectError Bom :=
  match t.readText path with
  | .error fault => .error (.bomUnreadable path fault)
  | .ok text => match Bom.parse? text with
    | some b => .ok b
    | none => .error (.bomNameless path)

def inputs (b : ProjectBuilder) (paths : List Text) (t : FileTree) :
    Except ProjectError (Text × List Bom) := do
  let template ← b.readTemplate t
  let boms ← paths.mapM (readBom t)
  return (template, boms.map (Bom.without b.skip))

/-- Makes a project's directory. What was made before a fault stays. -/
def makeDirectory (path : Text) (t : FileTree) : FileTree × Except ProjectError Unit :=
  if t.has path then (t, .error (.directoryExists path))
  else match t.makeDirectories path with
    | (t, none) => (t, .ok ())
    | (t, some fault) => (t, .error (.directoryFault path fault))

def writeProject (template : Text) (boms : List Bom) (directory : Text) (t : FileTree) :
    Except ProjectError FileTree := do
  let text ← ((Template.parse template).bind (·.render (Bom.projectData boms))).mapError .unrendered
  let file := Path.join directory projectFile
  (t.write file (Text.Utf8.encode text)).mapError (.unwritable file)

/-- Generates a project from the bills of materials at the paths and gives its directory. The
directory stays when its file cannot be rendered or written. -/
def generate (b : ProjectBuilder) (paths : List Text) (t : FileTree) :
    FileTree × Except ProjectError Text :=
  match b.inputs paths t with
  | .error e => (t, .error e)
  | .ok (template, boms) =>
    let directory := Path.join b.target (Bom.projectName boms)
    match makeDirectory directory t with
    | (t, .error e) => (t, .error e)
    | (t, .ok ()) =>
      match writeProject template boms directory t with
      | .ok t => (t, .ok directory)
      | .error e => (t, .error e)

end ProjectBuilder

end ModuleRules
