import River.Proofs.Exchange.Refused
import River.Proofs.Exchange.Unambiguous
import River.Proofs.Json.Framed

/-! A file is read from a whole text or not at all. More text stands behind what was read before
and never becomes part of it, so a text that goes on is refused unless it goes on with blanks, and
one that was cut off is refused wherever the cut is. -/
namespace River.Exchange

open River.Json

/-- A record is in brackets, so its text says itself where it ends. -/
theorem spells_append (means : Denotes (.record r) d v) (spells : Spells d text rest)
    (after : List Char) : Spells d (text ++ after) (rest ++ after) := by
  cases means with
  | elements =>
    cases spells with
    | array items => exact .array (items.closed.append trivial)
  | members =>
    cases spells with
    | object members => exact .object (members.closed.append trivial)

theorem rest_unique (blank : Blank before) (blank' : Blank before') (left : Spells d text rest)
    (right : Spells e text' rest') (same : before ++ text = before' ++ text') : rest = rest' := by
  obtain rfl := value_unique blank blank' left right same
  exact Wellformed.unique left.wellformed right.wellformed

theorem fromJson_blank (accepted : File.fromJson text = .ok f) (blank : Blank after.toList) :
    File.fromJson (text ++ after) = .ok f := by
  obtain ⟨d, ⟨before, body, rest, blank', blank'', split, spells⟩, means, shallow⟩ :=
    fromJson_ok_iff.mp accepted
  refine fromJson_ok_iff.mpr ⟨d, ⟨before, body ++ after.toList, rest ++ after.toList, blank',
    blank''.append blank, ?_, spells_append means spells after.toList⟩, means, shallow⟩
  rw [String.toList_append, split, List.append_assoc]

theorem blank_of_fromJson (accepted : File.fromJson text = .ok f)
    (accepted' : File.fromJson (text ++ after) = .ok g) : Blank after.toList := by
  obtain ⟨d, ⟨before, body, rest, blank, -, split, spells⟩, means, -⟩ := fromJson_ok_iff.mp accepted
  obtain ⟨e, ⟨before', body', rest', blank', ended, split', spells'⟩, -, -⟩ :=
    fromJson_ok_iff.mp accepted'
  rw [String.toList_append, split, List.append_assoc] at split'
  obtain rfl := rest_unique blank blank' (spells_append means spells after.toList) spells' split'
  exact fun c member => ended c (List.mem_append_right rest member)

theorem whole_of_fromJson {f : File} (cut : text ++ after = f.toJson)
    (accepted : File.fromJson text = .ok g) : after = "" := by
  obtain ⟨d, ⟨before, body, rest, blank, -, split, spells⟩, means, -⟩ := fromJson_ok_iff.mp accepted
  have written := spells_print .indented f.json 0 [] (by simp [EndsNumber])
  have same : before ++ (body ++ after.toList) = [] ++ f.json.print .indented 0 [] := by
    rw [← List.append_assoc, ← split, ← String.toList_append, cut]
    exact String.toList_ofList
  have ended := rest_unique blank Blank.nil (spells_append means spells after.toList) written same
  exact String.toList_eq_nil_iff.mp (List.append_eq_nil_iff.mp ended).2

/-- What is read can only go on with blanks, and what is written cannot be cut off. -/
theorem fromJson_whole :
    (∀ (text after : String) (f : File), File.fromJson text = .ok f →
      (Blank after.toList → File.fromJson (text ++ after) = .ok f) ∧
      (¬Blank after.toList → Refused (File.fromJson (text ++ after)))) ∧
    ∀ (f : File) (text after : String), text ++ after = f.toJson → after ≠ "" →
      Refused (File.fromJson text) := by
  refine ⟨fun text after f accepted => ⟨fromJson_blank accepted, fun other => ?_⟩,
    fun f text after cut more => ?_⟩
  · exact refused_of_not_read _ fun g accepted' => other (blank_of_fromJson accepted accepted')
  · exact refused_of_not_read _ fun g accepted => more (whole_of_fromJson cut accepted)

def emptyFile : File := ⟨"", [], []⟩

theorem fromJson_cut_or_continued :
    File.fromJson "[\"\",[],[]]" = .ok emptyFile ∧
    File.fromJson ("[\"\",[],[]]" ++ "\r\n") = .ok emptyFile ∧
    Refused (File.fromJson ("[\"\",[],[]]" ++ "\n]")) ∧
    emptyFile.toJson = "\x7b\n  \"name\": \"\",\n  \"body\": [],\n" ++ "  \"comments\": []\n\x7d" ∧
    Refused (File.fromJson "\x7b\n  \"name\": \"\",\n  \"body\": [],\n") := by
  have accepted : File.fromJson "[\"\",[],[]]" = .ok emptyFile := by decide +kernel
  have written : "\x7b\n  \"name\": \"\",\n  \"body\": [],\n" ++ "  \"comments\": []\n\x7d" =
    emptyFile.toJson := by decide +kernel
  exact ⟨accepted, (fromJson_whole.1 _ "\r\n" _ accepted).1 (by decide),
    (fromJson_whole.1 _ "\n]" _ accepted).2 (by decide), written.symm,
    fromJson_whole.2 emptyFile _ _ written (by decide)⟩

end River.Exchange
