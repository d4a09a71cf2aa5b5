import River.Exchange.Reading
import River.Exchange.Writing
import River.Json.Complaint

/-! Files as JSON text, and back. -/
namespace River

namespace Exchange

def fromText (s : Shape) (text : String) : Except Json.Complaint s.Content :=
  (readAll s text.toList).mapError (Json.Failure.complaint text.toList)

end Exchange

/-- The JSON text of a file, a line for each item and member. -/
def File.toJson (f : File) : String := f.json.pretty

def File.fromJson (text : String) : Except Report File :=
  (Exchange.fromText (.record .file) text).mapError Json.Complaint.report

theorem File.fromJson_eq_ok {text : String} {f : File} :
    fromJson text = .ok f ↔ Exchange.readAll (.record .file) text.toList = .ok f := by
  unfold fromJson Exchange.fromText
  cases Exchange.readAll (.record .file) text.toList with
  | error e => exact ⟨nofun, nofun⟩
  | ok g => exact ⟨fun | rfl => rfl, fun | rfl => rfl⟩

end River
