import LpStudio.ChangeSet.Syntax
import LpStudio.StaticExport.References

/-! # Paths, media types and local references in `change_set.rs`
-/
namespace LpStudio.ChangeSet
open Str Paths

/-- `validate_path`. -/
def validatePath (K : Crates) (path : Text) : Except ChangeSetError Unit :=
  if path.isEmpty || maxPathBytes < byteLength path || path.head? == some '/' || path.contains '\\' ||
      K.nfc path != path || path.any isControl then .error .unsafePath
  else if maxDepth < (segments path).length then .error .unsafePath
  else if (segments path).any badSegment then .error .unsafePath
  else if Paths.reservedPath K path then .error .reservedPath
  else .ok ()

inductive MediaType where
  | html | css | javascript | json | manifest | svg | xml | plain | csv
  deriving DecidableEq, Repr

def MediaType.essence : MediaType → String
  | html => "text/html"
  | css => "text/css"
  | javascript => "application/javascript"
  | json => "application/json"
  | manifest => "application/manifest+json"
  | svg => "image/svg+xml"
  | xml => "application/xml"
  | plain => "text/plain"
  | csv => "text/csv"

/-- `text_media_type_for_path`. -/
def textMediaTypeForPath (path : Text) : Option MediaType :=
  match extension path with
  | none => none
  | some extension =>
    let isOneOf (choices : List String) := choices.any fun choice => eqIgnoreCase extension choice.toList
    if isOneOf ["html", "htm"] then some .html
    else if isOneOf ["css"] then some .css
    else if isOneOf ["js", "mjs", "cjs"] then some .javascript
    else if isOneOf ["json", "map"] then some .json
    else if isOneOf ["webmanifest"] then some .manifest
    else if isOneOf ["svg"] then some .svg
    else if isOneOf ["xml"] then some .xml
    else if isOneOf ["txt"] then some .plain
    else if isOneOf ["csv"] then some .csv
    else none

/-- A file whose tags the behaviour gate reads. -/
def isPage (path : Text) : Prop := textMediaTypeForPath path ∈ [some .html, some .svg, some .xml]

instance (path : Text) : Decidable (isPage path) := inferInstanceAs (Decidable (_ ∈ _))

def validateTextMediaType (path mediaType : Text) : Except ChangeSetError Unit :=
  if (textMediaTypeForPath path).map (·.essence.toList) = some mediaType then .ok ()
  else .error .unsupportedMediaType

/-- `resolve_local_reference`: `none` for a reference that is not local. -/
def resolveLocalReference (K : Crates) (sourcePath rawReference : Text) :
    Except ChangeSetError (Option Text) :=
  let reference := trim rawReference
  let startsWith (scheme : String) := scheme.toList.isPrefixOf (lower reference)
  if reference.isEmpty || reference.head? == some '#' || "//".toList.isPrefixOf reference ||
      ["http:", "https:", "data:", "mailto:", "tel:", "blob:"].any startsWith then .ok none
  else if startsWith "javascript:" || startsWith "file:" || reference.contains '\\' then
    .error .invalidLocalReference
  else
    match (percentDecode (withoutSuffix reference)).bind (resolvePath K sourcePath) with
    | none => .error .invalidLocalReference
    | some resolved =>
      if resolved.isEmpty then .ok (some "index.html".toList)
      else match validatePath K resolved with
      | .error _ => .error .invalidLocalReference
      | .ok () => .ok (some resolved)

/-- A resolved reference leads to a file, or to the index of a directory. -/
def present (files : Files) (resolved : Text) : Bool :=
  files.contains resolved || files.contains (resolved ++ "/index.html".toList)

/-- The check of one reference in `validate_local_references`. -/
def validateReference (K : Crates) (files : Files) (sourcePath reference : Text) :
    Except ChangeSetError Unit := do
  match ← resolveLocalReference K sourcePath reference with
  | none => return ()
  | some resolved =>
    if present files resolved then return () else throw .invalidLocalReference

/-- The check of one file in `validate_local_references`: whether its analysis is incomplete. -/
def validateFileReferences (K : Crates) (files : Files) (sourcePath : Text) (bytes : Bytes) :
    Except ChangeSetError Bool :=
  match StaticExport.scanReferences sourcePath bytes with
  | .error _ => .error .invalidLocalReference
  | .ok scan => do
    scan.references.forM (validateReference K files sourcePath)
    return scan.analysisIncomplete

/-- `validate_local_references`: the sources whose analysis is incomplete. -/
def validateLocalReferences (K : Crates) (files : Files) : Except ChangeSetError (List Text) := do
  let sources ← files.toList.mapM fun (sourcePath, bytes) => do
    let incomplete ← validateFileReferences K files sourcePath bytes
    return if incomplete then [sourcePath] else []
  return sources.flatten

end LpStudio.ChangeSet
