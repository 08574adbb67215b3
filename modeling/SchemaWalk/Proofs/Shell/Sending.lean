import SchemaWalk.Proofs.Introspection.Loading
import SchemaWalk.Proofs.Shell.Reach

/-! # What a session sends: the typed lines decide it, and nothing that the service has sent -/
namespace SchemaWalk

namespace Command

/-- The line that asks for what `fragment` selects. -/
def inBraces (fragment : String) : String := "\x7b" ++ fragment ++ "\x7d"

theorem toList_inBraces (fragment : String) :
    (inBraces fragment).toList = '\x7b' :: fragment.toList ++ ['\x7d'] := by
  simp [inBraces]

theorem braced?_eq_some_iff {line fragment : String} :
    braced? line.toList = some fragment ↔ fragment ≠ "" ∧ line = inBraces fragment := by
  rw [← String.toList_inj, toList_inBraces]
  generalize line.toList = text
  constructor
  · intro h
    unfold braced? at h
    split at h
    · next rest =>
      simp only at h
      split at h
      · next hends =>
        rw [Bool.and_eq_true, decide_eq_true_eq] at hends
        obtain ⟨inside, rfl⟩ := List.getLast?_eq_some_iff.1 hends.1
        cases h
        simpa using hends.2
      · cases h
    · cases h
  · rintro ⟨hne, rfl⟩
    simp [braced?, hne]

theorem find_eq_query_iff {line fragment : String} :
    find line = .ok (.query fragment) ↔ fragment ≠ "" ∧ line = inBraces fragment := by
  rw [← braced?_eq_some_iff]
  constructor
  · exact fun h => readFrom_of_find h
  · intro h
    obtain ⟨-, rfl⟩ := braced?_eq_some_iff.1 h
    have htext := toList_inBraces fragment
    have hne : ∀ word : String, word.toList.head? ≠ some '\x7b' → inBraces fragment ≠ word := by
      rintro _ hword rfl
      exact hword (by simp [htext])
    have hhelp : help? (inBraces fragment).toList = none := by simp [htext, help?, after?]
    have hnarrow : (after? "on" (inBraces fragment).toList).bind typeName? = none := by
      simp [htext, after?]
    have hclimb : Traversal.climb? (inBraces fragment).toList = none := by
      rw [htext, Traversal.climb?.eq_def]
      simp
    have hdot : (inBraces fragment).toList.head? ≠ some '.' := by simp [htext]
    simp only [find, if_neg (hne "exit" (by decide)), if_neg (hne "ls" (by decide)),
      if_neg (hne "pp" (by decide)), if_neg (hne "pq" (by decide)), hhelp, hnarrow, hclimb,
      if_neg hdot, h]

end Command

namespace Session

/-- The line asks for what `fragment` selects: it is that text in braces, and not only braces. -/
def Asks (line fragment : String) : Prop :=
  fragment ≠ "" ∧ withoutBreak line = Command.inBraces fragment

theorem connection_run (s : Session) {command : Command}
    (h : ∀ fragment, command ≠ .query fragment) : (s.run command).2.connection = s.connection := by
  cases command with
  | exit | help | narrow | ascend | descend => rfl
  | listFields | printPath | printDocument =>
    simp only [run]
    split <;> rfl
  | query fragment => exact absurd rfl (h fragment)

/-- What a line does to the connection. One that asks sends the document of the path around its
fragment, and shows the reply to that, unless the path has no document. All others send nothing. -/
theorem execute_sends (s : Session) (line : String) :
    (∃ fragment document, Asks line fragment ∧ s.path.document fragment = .ok document ∧
      s.execute line =
        (replyOutcome (s.connection.reply 0),
          { s with connection := (s.connection.ask document).2 })) ∨
      (∃ fragment e, Asks line fragment ∧ s.path.document fragment = .error e ∧
        s.execute line = (.failure e.message, s)) ∨
      ((∀ fragment, ¬Asks line fragment) ∧ (s.execute line).2.connection = s.connection) := by
  cases hfind : Command.find (withoutBreak line) with
  | error e =>
    refine .inr (.inr ⟨fun fragment h => ?_, by simp only [execute, hfind]⟩)
    rw [Command.find_eq_query_iff.2 h] at hfind
    cases hfind
  | ok command =>
    by_cases hquery : ∃ fragment, command = .query fragment
    · obtain ⟨fragment, rfl⟩ := hquery
      have hasks : Asks line fragment := Command.find_eq_query_iff.1 hfind
      have hexecute : s.execute line = s.query fragment := by simp only [execute, hfind, run]
      rw [hexecute]
      cases hdocument : s.path.document fragment with
      | ok document =>
        exact .inl ⟨fragment, document, hasks, hdocument, by simp only [query, hdocument]; rfl⟩
      | error e =>
        exact .inr (.inl ⟨fragment, e, hasks, hdocument, by simp only [query, hdocument]⟩)
    · refine .inr (.inr ⟨fun fragment h => ?_, ?_⟩)
      · rw [Command.find_eq_query_iff.2 h] at hfind
        exact hquery ⟨fragment, (Except.ok.inj hfind).symm⟩
      · simp only [execute, hfind]
        exact s.connection_run fun fragment h => hquery ⟨fragment, h⟩

end Session

namespace Path

/-- The path after a line. -/
def follow (p : Path) (line : String) : Path :=
  match Command.find (Session.withoutBreak line) with
  | .ok command => p.run (command.moves p.current)
  | .error _ => p

/-- The document that a line asks for, if it asks and the path has one. -/
def documentFor? (p : Path) (line : String) : Option String := do
  let fragment ← Command.braced? (Session.withoutBreak line).toList
  (p.document fragment).toOption

/-- The documents that lines ask for, each line where the lines before it have led. -/
def documentsFor : Path → List String → List String
  | _, [] => []
  | p, line :: lines => (p.documentFor? line).toList ++ documentsFor (p.follow line) lines

theorem documentFor?_of_asks (p : Path) {line fragment : String} (h : Session.Asks line fragment) :
    p.documentFor? line = (p.document fragment).toOption := by
  rw [documentFor?, Command.braced?_eq_some_iff.2 h]
  rfl

theorem documentFor?_of_not_asks (p : Path) {line : String}
    (h : ∀ fragment, ¬Session.Asks line fragment) : p.documentFor? line = none := by
  have hnone : Command.braced? (Session.withoutBreak line).toList = none := by
    rw [Option.eq_none_iff_forall_ne_some]
    exact fun fragment hfragment => h fragment (Command.braced?_eq_some_iff.1 hfragment)
  rw [documentFor?, hnone]
  rfl

end Path

namespace Session

theorem path_execute (s : Session) (line : String) :
    (s.execute line).2.path = s.path.follow line := by
  rw [execute_path, moves, Path.follow]
  cases Command.find (withoutBreak line) <;> rfl

theorem sent_execute (s : Session) (line : String) :
    (s.execute line).2.connection.sent =
      s.connection.sent ++ (s.path.documentFor? line).toList := by
  rcases s.execute_sends line with
    ⟨fragment, document, hasks, hdocument, h⟩ | ⟨fragment, e, hasks, hdocument, h⟩ | ⟨hnone, h⟩
  · rw [h, s.path.documentFor?_of_asks hasks, hdocument]
    rfl
  · rw [h, s.path.documentFor?_of_asks hasks, hdocument]
    simp [Except.toOption]
  · rw [h, s.path.documentFor?_of_not_asks hnone]
    simp

theorem path_after (s : Session) (lines : List String) :
    (s.after lines).path = lines.foldl Path.follow s.path := by
  induction lines generalizing s with
  | nil => rfl
  | cons line lines ih => rw [after, List.foldl_cons, ← after, ih, path_execute, List.foldl_cons]

theorem sent_after (s : Session) (lines : List String) :
    (s.after lines).connection.sent = s.connection.sent ++ s.path.documentsFor lines := by
  induction lines generalizing s with
  | nil => simp [after, Path.documentsFor]
  | cons line lines ih =>
    rw [after, List.foldl_cons, ← after, ih, sent_execute, path_execute, Path.documentsFor,
      List.append_assoc]

theorem replies_after (s : Session) (lines : List String) :
    (s.after lines).connection.replies = s.connection.replies := by
  induction lines generalizing s with
  | nil => rfl
  | cons line lines ih =>
    rw [after, List.foldl_cons, ← after, ih]
    rcases s.execute_sends line with ⟨_, _, -, -, h⟩ | ⟨_, _, -, -, h⟩ | ⟨-, h⟩
    · rw [h]
      rfl
    · rw [h]
    · rw [h]

theorem connection_of_start {c : Connection} {s : Session} (h : Session.start c = .ok s) :
    s.connection = c.asked 1 := by
  simp only [Session.start, Gate.load_empty] at h
  cases hanswer : Introspection.answer (c.reply 0) with
  | ok schema =>
    rw [hanswer] at h
    cases h
    rfl
  | error e =>
    rw [hanswer] at h
    cases h

section

variable {c : Connection} {s : Session}

theorem sent_after_start (h : Session.start c = .ok s) (lines : List String) :
    (s.after lines).connection.sent =
      c.sent ++ Introspection.request :: Path.start.documentsFor lines := by
  rw [sent_after, connection_of_start h, path_of_start h]
  simp [Connection.asked]

theorem reply_after_start (h : Session.start c = .ok s) (lines : List String) :
    (s.after lines).connection.reply 0 = c.reply ((Path.start.documentsFor lines).length + 1) := by
  rw [Connection.reply, replies_after, sent_after_start h, connection_of_start h]
  simp [Connection.reply, Connection.asked]

end

theorem printed_of_path {s s' : Session} (h : s'.path = s.path) :
    (s'.execute "pp").1 = (s.execute "pp").1 ∧ (s'.execute "pq").1 = (s.execute "pq").1 := by
  have hpath (s : Session) : s.execute "pp" = s.run .printPath := rfl
  have hdocument (s : Session) : s.execute "pq" = s.run .printDocument := rfl
  simp only [hpath, hdocument, run, h]
  constructor
  · cases s.path.render <;> rfl
  · cases s.path.document "" <;> rfl

/-- After the schema a session sends one document for each line in braces, where the path has one,
and shows the reply to it. A line in braces where the path has none sends nothing, and neither does
any other line. So what a service sends, be it schema or reply, decides nothing: with another one
the same lines send the same documents, and lead to the same path. -/
theorem lines_decide_what_is_sent {c : Connection} {s : Session} (h : Session.start c = .ok s)
    (lines : List String) :
    let now := s.after lines
    let documents := Path.start.documentsFor lines
    now.connection.sent = c.sent ++ Introspection.request :: documents ∧
      (∀ line, (∃ fragment document, Asks line fragment ∧
        now.path.document fragment = .ok document ∧
        (now.execute line).1 = replyOutcome (c.reply (documents.length + 1)) ∧
        (now.execute line).2.connection.sent = now.connection.sent ++ [document]) ∨
        (∃ fragment e, Asks line fragment ∧ now.path.document fragment = .error e ∧
          now.execute line = (.failure e.message, now)) ∨
        ((∀ fragment, ¬Asks line fragment) ∧ (now.execute line).2.connection = now.connection)) ∧
      ∀ {c' : Connection} {s' : Session}, Session.start c' = .ok s' →
        let other := s'.after lines
        other.connection.sent = c'.sent ++ Introspection.request :: documents ∧
          other.path = now.path ∧ (other.execute "pp").1 = (now.execute "pp").1 ∧
          (other.execute "pq").1 = (now.execute "pq").1 := by
  intro now documents
  refine ⟨sent_after_start h lines, ?_, ?_⟩
  · intro line
    rcases now.execute_sends line
      with ⟨fragment, document, hasks, hdocument, hline⟩ | hrefused | hnone
    · refine .inl ⟨fragment, document, hasks, hdocument, ?_, ?_⟩
      · rw [hline, reply_after_start h]
      · rw [hline]
        rfl
    · exact .inr (.inl hrefused)
    · exact .inr (.inr hnone)
  · intro c' s' h' other
    have hpath : other.path = now.path := by
      rw [s'.path_after, s.path_after, path_of_start h', path_of_start h]
    exact ⟨sent_after_start h' lines, hpath, printed_of_path hpath⟩

def answeringService : Connection :=
  let schema := "\x7b\"data\":\x7b\"__schema\":\x7b\"queryType\":\x7b\"name\":\"R\"\x7d," ++
    "\"types\":[\x7b\"kind\":\"OBJECT\",\"name\":\"R\"\x7d]\x7d\x7d\x7d"
  .ofReplies ([schema, "\x7b\"data\":null\x7d"].map fun text => .ok (Text.encode text.toList))
    (.error (.request "timeout"))

/-- Neither service has the type that the path is narrowed to. The query below `score` is not sent,
because its argument has no form in a document. -/
theorem lines_decide_what_is_sent_to_two_services :
    let lines := ["\x7ba\x7d", ".user(id: 7)", "on User", "\x7bname\x7d", ".score(limit: 15e-1)",
      "\x7bb\x7d", "\x7b\x7d", "..", "\x7bc\x7d\n"]
    let documents := ["query \x7b\na\n\x7d",
      "query \x7b\n  user(id: 7) \x7b\n    ... on User \x7b\nname\n    \x7d\n  \x7d\n\x7d",
      "query \x7b\n  user(id: 7) \x7b\n    ... on User \x7b\nc\n    \x7d\n  \x7d\n\x7d"]
    ∃ other, Session.start bareService = .ok bare ∧ Session.start answeringService = .ok other ∧
      bare.schema.queryName = "Q" ∧ other.schema.queryName = "R" ∧
      (bare.after lines).connection.sent = Introspection.request :: documents ∧
      (other.after lines).connection.sent = Introspection.request :: documents ∧
      (other.after lines).path = (bare.after lines).path := by
  intro lines documents
  have hdocuments : Path.start.documentsFor lines = documents := by decide +kernel
  have hstarted : (Session.start answeringService).toOption.map (·.schema.queryName) =
      some "R" := by decide +kernel
  obtain ⟨other, hother, hname⟩ := Option.map_eq_some_iff.1 hstarted
  have hstart := eq_ok_of_toOption hother
  obtain ⟨hsent, -, htwo⟩ := lines_decide_what_is_sent start_bareService lines
  obtain ⟨hsent', hpath, -⟩ := htwo hstart
  rw [hdocuments] at hsent hsent'
  exact ⟨other, start_bareService, hstart, by decide +kernel, hname, hsent, hsent', hpath⟩

end Session

end SchemaWalk
