import River.Exchange
import River.Proofs.Exchange.Spelled
import River.Proofs.Exchange.Yields

/-! What was written can be read back, as long as brackets are nested no deeper than a reader goes;
nothing else is in the way. -/
namespace River.Exchange

open River.Json

/-- Reads a shape from JSON text and reports what is wrong with the text. -/
def reading (s : Shape) (text : String) : Except Report s.Content :=
  (fromText s text).mapError Complaint.report

/-- What comes of reading a text of `v`: up to the limit `v` itself, and beyond it a report that
complains about the limit. -/
structure Restores (nesting : Nat) (v : α) (outcome : Except Report α) : Prop where
  shallow : nesting ≤ 127 → outcome = .ok v
  deep : 128 ≤ nesting → ∃ r place, outcome = .error r ∧ r.fault = .serialization ∧
    r.message = "recursion limit exceeded" ++ place

theorem message_placed (text : List Char) (cause : Cause) (left : Nat) :
    ∃ place, ((Failure.placed cause left).complaint text).report.message = cause.message ++ place := by
  refine ⟨" at line " ++ ((lineColumn text (Text.byteLength text - left)).1.repr ++ (" column " ++
    (lineColumn text (Text.byteLength text - left)).2.repr)), ?_⟩
  simp only [Failure.complaint, Complaint.report, Complaint.text, String.append_assoc]

theorem reading_print (s : Shape) (v : s.Content) (fits : s.Fits v) (layout : Layout) :
    Restores (s.json v).nesting v
      (reading s (String.ofList (print layout 0 (s.json v) []))) := by
  have spells := spells_print layout (s.json v) 0 [] (by simp [EndsNumber])
  have outcome := readAll_spelled (denotes_json s v fits) Blank.nil spells Blank.nil
  rw [List.nil_append, nesting_doc] at outcome
  constructor
  · intro shallow
    simp only [reading, fromText, String.toList_ofList, outcome.1 shallow]
    rfl
  · intro deep
    obtain ⟨left, failed⟩ := outcome.2 deep
    simp only [reading, fromText, String.toList_ofList, failed]
    obtain ⟨place, message⟩ := message_placed (print layout 0 (s.json v) []) .tooDeep left
    exact ⟨_, place, rfl, rfl, message⟩

/-- Files come back from their text; the parts of a file, and statements and expressions, from
theirs on one line. -/
theorem reading_written :
    (∀ f : File, Restores f.json.nesting f (File.fromJson f.toJson)) ∧
    (∀ ss : List Stmt, Restores (bodyJson ss).nesting ss
      (reading (.list (.choice .stmt)) (bodyJson ss).compact)) ∧
    (∀ g : List Comment, Restores (groupJson g).nesting g
      (reading (.list (.record .comment)) (groupJson g).compact)) ∧
    (∀ c : Comment, Restores c.json.nesting c (reading (.record .comment) c.json.compact)) ∧
    (∀ s : Stmt, Restores s.json.nesting s (reading (.choice .stmt) s.json.compact)) ∧
    (∀ e : Expr, Restores e.json.nesting e (reading (.choice .expr) e.json.compact)) := by
  have comment (c : Comment) : Shape.Fits (.record .comment) c := ⟨(c.start, c.text, ()), rfl⟩
  refine ⟨fun f => ?_, fun ss => ?_, fun g => ?_, fun c => ?_, fun s => ?_, fun e => ?_⟩
  · exact reading_print (.record .file) f ⟨(f.name, f.body, f.comments, ()), rfl⟩ .indented
  · have written : bodyJson ss = Shape.json (.list (.choice .stmt)) ss := by
      simp only [bodyJson, jsonAll_stmts]
      rfl
    rw [written]
    exact reading_print (.list (.choice .stmt)) ss (fun _ _ => trivial) .compact
  · exact reading_print (.list (.record .comment)) g (fun c _ => comment c) .compact
  · exact reading_print (.record .comment) c (comment c) .compact
  · exact reading_print (.choice .stmt) s trivial .compact
  · exact reading_print (.choice .expr) e trivial .compact

theorem read_of_fromJson (h : File.fromJson text = .ok f) :
    ∃ rest, read depthLimit (.record .file) text.toList = .ok (f, rest) := by
  obtain ⟨⟨v, rest⟩, read, ended⟩ := of_bind_ok (File.fromJson_eq_ok.mp h)
  dsimp only at ended
  split at ended
  · cases ended; exact ⟨rest, read⟩
  · cases ended

/-- However a file was spelled, its own text is nested no deeper, and so can be read again. -/
theorem fromJson_toJson_of_fromJson (text : String) (f : File) (h : File.fromJson text = .ok f) :
    File.fromJson f.toJson = .ok f ∧ f.json.nesting ≤ 127 := by
  obtain ⟨rest, read⟩ := read_of_fromJson h
  have shallow : f.json.nesting ≤ 127 := nesting_le_of_read depthLimit (.record .file) _ _ _ read
  have restored := reading_print (.record .file) f ⟨(f.name, f.body, f.comments, ()), rfl⟩ .indented
  exact ⟨restored.shallow shallow, shallow⟩

/-- Records as arrays, a member that is no field, positions missing and beyond the last one, and a
token as an object. -/
def unusualText : String :=
  "[\"a\",[\x7b\"Attribute\":\x7b\"x\":[],\"name\":[\"c\",18446744073709551615],\"value\":" ++
  "\x7b\"Unary\":\x7b\"value\":\x7b\"Identifier\":\x7b\"name\":\"b\"\x7d\x7d,\"kind\":\x7b\"Not\":null\x7d\x7d\x7d\x7d\x7d],[]]"

def unusualFile : File :=
  ⟨"a", [.attribute ⟨"c", .ofOffset Pos.last⟩ (.unary .not .unplaced (.ident ⟨"b", .unplaced⟩))], []⟩

theorem fromJson_toJson_unusual : File.fromJson unusualText = .ok unusualFile ∧
    File.fromJson unusualFile.toJson = .ok unusualFile ∧ unusualFile.json.nesting ≤ 127 := by
  have read : File.fromJson unusualText = .ok unusualFile := by decide +kernel
  exact ⟨read, fromJson_toJson_of_fromJson unusualText unusualFile read⟩

end River.Exchange
