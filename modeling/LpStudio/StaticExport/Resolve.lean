import LpStudio.Site.Paths
import LpStudio.StaticExport.References

/-! # Reference resolution of `static_export.rs`
-/
namespace LpStudio.StaticExport
open Str Paths

structure ExternalReferenceV1 where
  sourcePath : Text
  sanitizedUrl : Text
  origin : Text
  userinfoRedacted : Bool
  queryRedacted : Bool
  fragmentRedacted : Bool
  deriving DecidableEq, Repr

inductive ReferenceResolution where
  | ignored
  | runtimeOnly
  | local (path : Text)
  | external (reference : ExternalReferenceV1)
  deriving DecidableEq, Repr

/-- `has_explicit_scheme`. -/
def hasExplicitScheme (reference : Text) : Bool :=
  let scheme := reference.takeWhile (· != ':')
  reference.contains ':' && !scheme.any (fun c => c == '/' || c == '?' || c == '#') &&
  match scheme with
  | [] => true
  | c :: cs => isAsciiAlphabetic c &&
      cs.all fun c => isAsciiAlphanumeric c || c == '+' || c == '-' || c == '.'

def externalReference (K : Crates) (sourcePath reference : Text) (protocolRelative : Bool) :
    Except StaticExportError ExternalReferenceV1 :=
  let parseValue := if protocolRelative then "https:".toList ++ reference else reference
  match K.urlParse parseValue with
  | none => .error (.unsafeReference sourcePath)
  | some url =>
    if url.scheme ∉ ["http".toList, "https".toList] ∨ url.hostStr.isNone then
      .error (.unsafeReference sourcePath)
    else match url.cleared with
    | none => .error (.unsafeReference sourcePath)
    | some sanitizedUrl =>
      let stripHttps (value : Text) :=
        if protocolRelative then (stripPrefix "https:".toList value).getD value else value
      .ok {
        sourcePath
        sanitizedUrl := stripHttps sanitizedUrl
        origin := stripHttps url.origin
        userinfoRedacted := !url.username.isEmpty || url.password.isSome
        queryRedacted := url.query.isSome
        fragmentRedacted := url.fragment.isSome }

def resolveReference (K : Crates) (sourcePath rawReference : Text) :
    Except StaticExportError ReferenceResolution :=
  let reference := trim rawReference
  let startsWith (scheme : String) := scheme.toList.isPrefixOf (lower reference)
  if reference.isEmpty || reference.head? == some '#' then .ok .ignored
  else if reference.any isControl || reference.contains '\\' then .error (.unsafeReference sourcePath)
  else if startsWith "javascript:" || startsWith "file:" then .error (.unsafeReference sourcePath)
  else if startsWith "http:" || startsWith "https:" then
    (externalReference K sourcePath reference false).map .external
  else if "//".toList.isPrefixOf reference then
    (externalReference K sourcePath reference true).map .external
  else if startsWith "blob:" then .ok .runtimeOnly
  else if startsWith "data:" || startsWith "mailto:" || startsWith "tel:" then .ok .ignored
  else if hasExplicitScheme reference then .error (.unsafeReference sourcePath)
  else if (withoutSuffix reference).isEmpty then .ok (.local sourcePath)
  else
    match (percentDecode (withoutSuffix reference)).bind (resolvePath K sourcePath) with
    | none => .error (.unsafeReference sourcePath)
    | some resolved =>
      if resolved.isEmpty then .ok (.local "index.html".toList)
      else if validateCanonicalPath K resolved then .ok (.local resolved)
      else .error (.unsafeReference sourcePath)

end LpStudio.StaticExport
