import AppServer.Json.Reader
import AppServer.Negotiation.Provider
import AppServer.Xml.Printer
import AppServer.Xml.Reader

/-!
# The providers for JSON and XML

Both are registered before any other, JSON first.
-/

namespace AppServer.Negotiation

open AppServer.Http

/-- Reads and writes JSON. -/
def Provider.json : Provider where
  name := "json"
  produces := [applicationJson]
  consumes := [applicationJson, "text/json"]
  encode v :=
    match Json.render? v with
    | some text => .ok text.toUTF8
    | none => .error (.encode "the value has no JSON form")
  decode shape body :=
    match Json.read? shape body with
    | some v => .ok (some v)
    | none => .error (.decode "the body is not the JSON that was expected")

/-- Reads and writes XML. -/
def Provider.xml : Provider where
  name := "xml"
  produces := [applicationXml, "text/xml"]
  consumes := [applicationXml, "text/xml"]
  encode v :=
    match Xml.render? v with
    | some text => .ok text.toUTF8
    | none => .error (.encode "the value has no XML form")
  decode shape body :=
    match Xml.read? shape body with
    | some v => .ok (some v)
    | none => .error (.decode "the body is not the XML that was expected")

/-- The registry that an application starts from. -/
def Registry.standard : Registry :=
  ⟨[.json, .xml]⟩

end AppServer.Negotiation
