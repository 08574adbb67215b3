import SchemaWalk.Introspection.Gate
import SchemaWalk.Proofs.Schema.Collected

/-! # Loading a gate many times: it asks until a reply holds a schema, and never again -/
namespace SchemaWalk

namespace Introspection

open Json

/-- What a decoded reply comes to: a schema, or one of four reasons why it holds none. -/
inductive Response.Holds : Response → Except SchemaError Schema → Prop
  | reported {messages : List String} : messages ≠ [] →
    Holds ⟨none, some messages⟩ (.error (.reported messages))
  | missingData {errors : Option (List String)} :
      errors.getD [] = [] → Holds ⟨none, errors⟩ (.error .missingData)
  | noQueryType {d : Description} {errors : Option (List String)} :
      d.query = none → Holds ⟨some d, errors⟩ (.error .noQueryType)
  | missingQueryType {d : Description} {errors : Option (List String)} {name : String} :
      d.query = some name → (∀ t ∈ d.types, t.name ≠ name) →
      Holds ⟨some d, errors⟩ (.error (.missingQueryType name))
  | schema {d : Description} {errors : Option (List String)} {s : Schema} :
      d.query = some s.queryName → s.types = Schema.collect d.types → s.mutationName = d.mutation →
      s.subscriptionName = d.subscription → Holds ⟨some d, errors⟩ (.ok s)

/-- What a reply comes to. It may not arrive, or may not be decoded. -/
inductive Says : Reply → Except SchemaError Schema → Prop
  | unsent (reason : TransportError) : Says (.error reason) (.error (.transport reason))
  | undecodable {body : Bytes} {error : Json.Error} :
      decode response body = .error error → Says (.ok body) (.error (.undecodable error))
  | decoded {body : Bytes} {r : Response} {result : Except SchemaError Schema} :
      decode response body = .ok r → r.Holds result → Says (.ok body) result

/-- What a load makes of the reply to its request. -/
def answer : Reply → Except SchemaError Schema
  | .error reason => .error (.transport reason)
  | .ok body => (load body).map (·.schema)

theorem holds_description (d : Description) (errors : Option (List String)) :
    Response.Holds ⟨some d, errors⟩ (d.schema.map (·.schema)) := by
  cases hquery : d.query with
  | none =>
    simp only [Description.schema, hquery, Except.map]
    exact .noQueryType hquery
  | some name =>
    cases hs : Schema.ofTypes? name d.types with
    | none =>
      simp only [Description.schema, hquery, hs, Except.map]
      exact .missingQueryType hquery (Schema.ofTypes?_eq_none_iff.1 hs)
    | some s =>
      obtain ⟨rfl, htypes, -, -⟩ := Schema.ofTypes?_eq_some_iff.1 hs
      simp only [Description.schema, hquery, hs, Except.map]
      exact .schema hquery htypes rfl rfl

theorem holds_schema (r : Response) : r.Holds (r.schema.map (·.schema)) := by
  obtain ⟨data, errors⟩ := r
  cases data with
  | some d => exact holds_description d errors
  | none =>
    rcases errors with _ | _ | ⟨e, es⟩
    · exact .missingData rfl
    · exact .missingData rfl
    · exact .reported (by simp)

theorem says_answer (reply : Reply) : Says reply (answer reply) := by
  cases reply with
  | error reason => exact .unsent reason
  | ok body =>
    rw [answer, load]
    cases hbody : decode response body with
    | error error => exact .undecodable hbody
    | ok r => exact .decoded hbody (holds_schema r)

theorem Response.Holds.schema_eq {r : Response} {result : Except SchemaError Schema}
    (h : r.Holds result) : r.schema.map (·.schema) = result := by
  cases h with
  | @reported messages hne =>
    obtain ⟨e, es, rfl⟩ := List.exists_cons_of_ne_nil hne
    rfl
  | @missingData errors hnone =>
    rcases errors with _ | _ | ⟨e, es⟩
    · rfl
    · rfl
    · cases hnone
  | noQueryType hquery => simp only [Response.schema, Description.schema, hquery, Except.map]
  | missingQueryType hquery hmissing =>
    have hs := Schema.ofTypes?_eq_none_iff.2 hmissing
    simp only [Response.schema, Description.schema, hquery, hs, Except.map]
  | @schema d errors s hquery htypes hmutation hsubscription =>
    have hs : Schema.ofTypes? s.queryName d.types =
        some { s with mutationName := none, subscriptionName := none } :=
      Schema.ofTypes?_eq_some_iff.2 ⟨rfl, htypes, rfl, rfl⟩
    simp only [Response.schema, Description.schema, hquery, hs, Except.map, ← hmutation,
      ← hsubscription]

theorem answer_eq_iff {reply : Reply} {result : Except SchemaError Schema} :
    answer reply = result ↔ Says reply result := by
  constructor
  · rintro rfl
    exact says_answer reply
  · intro h
    cases h with
    | unsent reason => rfl
    | undecodable hbody => rw [answer, load, hbody]; rfl
    | decoded hbody hr =>
      rw [answer, load, hbody]
      exact hr.schema_eq

theorem exists_description_of_load {body : Bytes} {l : Loaded} (h : load body = .ok l) :
    ∃ d errors, decode response body = .ok ⟨some d, errors⟩ ∧ d.query = some l.schema.queryName ∧
      l.schema.types = Schema.collect d.types := by
  have hanswer : answer (.ok body) = .ok l.schema := by rw [answer, h]; rfl
  cases answer_eq_iff.1 hanswer with
  | decoded hbody hholds =>
    cases hholds with
    | schema hquery htypes hmutation hsubscription => exact ⟨_, _, hbody, hquery, htypes⟩

end Introspection

open Introspection

namespace Connection

/-- The reply to the request after `i` further ones. -/
def reply (c : Connection) (i : Nat) : Reply := c.replies (c.sent.length + i)

/-- The connection after `n` further requests for the schema. -/
def asked (c : Connection) (n : Nat) : Connection :=
  { c with sent := c.sent ++ List.replicate n request }

/-- What the replies to the next `n` requests say. -/
def answers (c : Connection) (n : Nat) : List (Except SchemaError Schema) :=
  (List.range n).map fun i => answer (c.reply i)

theorem asked_zero (c : Connection) : c.asked 0 = c := by simp [asked]

theorem asked_asked (c : Connection) (n m : Nat) : (c.asked n).asked m = c.asked (n + m) := by
  simp [asked, List.replicate_append_replicate]

theorem reply_asked (c : Connection) (n i : Nat) : (c.asked n).reply i = c.reply (n + i) := by
  simp [reply, asked, Nat.add_assoc]

theorem answers_succ (c : Connection) (n : Nat) :
    c.answers (n + 1) = c.answers n ++ [answer (c.reply n)] := by
  simp [answers, List.range_succ]

end Connection

namespace Gate

theorem load_empty (c : Connection) :
    ({} : Gate).load c = (answer (c.reply 0), ⟨(answer (c.reply 0)).toOption⟩, c.asked 1) := by
  have hreply : (c.ask request) = (c.reply 0, c.asked 1) := rfl
  simp only [load, hreply]
  cases c.reply 0 with
  | error reason => rfl
  | ok body =>
    simp only [answer]
    cases Introspection.load body <;> rfl

/-- The results of `n` loads, one after the other, with the gate and the connection after them. -/
def loads (g : Gate) (c : Connection) : Nat → List (Except SchemaError Schema) × Gate × Connection
  | 0 => ([], g, c)
  | n + 1 =>
    let (results, g, c) := g.loads c n
    let (result, g, c) := g.load c
    (results ++ [result], g, c)

theorem loads_loaded (s : Schema) (c : Connection) (n : Nat) :
    (⟨some s⟩ : Gate).loads c n = (List.replicate n (.ok s), ⟨some s⟩, c) := by
  induction n with
  | zero => rfl
  | succ n ih =>
    simp only [loads, ih, load]
    rw [List.replicate_succ']

theorem loads_failing {c : Connection} {n : Nat} (h : ∀ i < n, ∃ e, answer (c.reply i) = .error e) :
    ({} : Gate).loads c n = (c.answers n, {}, c.asked n) := by
  induction n with
  | zero => simp [loads, Connection.answers, Connection.asked_zero]
  | succ n ih =>
    obtain ⟨e, he⟩ := h n (Nat.lt_succ_self n)
    have hbefore := ih fun i hi => h i (Nat.lt_succ_of_lt hi)
    simp only [loads, hbefore, load_empty, Connection.reply_asked, Connection.asked_asked,
      Nat.add_zero, Connection.answers_succ, he]
    rfl

/-- The first schema is kept, and with it the number of requests, however many loads follow. -/
theorem loads_from_first {c : Connection} {k : Nat} {s : Schema}
    (h : ∀ i < k, ∃ e, answer (c.reply i) = .error e) (hs : answer (c.reply k) = .ok s)
    (later : Nat) :
    ({} : Gate).loads c (k + 1 + later) =
      (c.answers k ++ List.replicate (1 + later) (.ok s), ⟨some s⟩, c.asked (k + 1)) := by
  induction later with
  | zero =>
    simp only [Nat.add_zero, loads, loads_failing h, load_empty, Connection.reply_asked,
      Connection.asked_asked, hs]
    rfl
  | succ later ih =>
    rw [← Nat.add_assoc, loads, ih]
    simp only [load]
    rw [List.append_assoc, ← Nat.add_assoc, ← List.replicate_succ']

/-- Loads of an empty gate ask once each, one reply after the other, and give back what each
reply says, until one says a schema. Until then the gate stays empty. From then on every load
gives that schema and asks for nothing, whatever the further replies would be. A gate that is
given a schema never asks. -/
theorem asks_until_loaded (c : Connection) :
    (∀ reply result, answer reply = result ↔ Says reply result) ∧
      (∀ n, (∀ i < n, ∃ e, answer (c.reply i) = .error e) →
        ({} : Gate).loads c n = (c.answers n, {}, c.asked n)) ∧
      (∀ k s, (∀ i < k, ∃ e, answer (c.reply i) = .error e) → answer (c.reply k) = .ok s →
        ∀ later, ({} : Gate).loads c (k + 1 + later) =
          (c.answers k ++ List.replicate (1 + later) (.ok s), ⟨some s⟩, c.asked (k + 1))) ∧
      ∀ s n, (⟨some s⟩ : Gate).loads c n = (List.replicate n (.ok s), ⟨some s⟩, c) :=
  ⟨fun _ _ => answer_eq_iff, fun _ h => loads_failing h,
    fun _ _ h hs later => loads_from_first h hs later, fun s n => loads_loaded s c n⟩

/-- A service that cannot be reached at first, then sends a body for each reason why a body may hold
no schema, then a schema, and afterwards nothing of use. -/
def unsteadyService : Connection :=
  let bodies := [
    "<html>",
    "\x7b\"data\":null,\"errors\":[\x7b\"message\":\"no\"\x7d]\x7d",
    "\x7b\"errors\":[]\x7d",
    "\x7b\"data\":\x7b\"__schema\":\x7b\x7d\x7d\x7d",
    "\x7b\"data\":\x7b\"__schema\":\x7b\"queryType\":\x7b\"name\":\"Q\"\x7d\x7d\x7d\x7d",
    "\x7b\"data\":\x7b\"__schema\":\x7b\"queryType\":\x7b\"name\":\"Q\"\x7d," ++
      "\"types\":[\x7b\"kind\":\"OBJECT\",\"name\":\"Q\"\x7d]\x7d\x7d\x7d",
    "<html>"]
  .ofReplies (.error (.request "refused") :: bodies.map fun text => .ok (Text.encode text.toList))
    (.error (.other "gone"))

theorem asks_until_loaded_in_the_end :
    let c := unsteadyService
    (∀ i < 6, ∃ e, answer (c.reply i) = .error e) ∧ ∃ s, answer (c.reply 6) = .ok s ∧
      ({} : Gate).loads c 9 = (c.answers 6 ++ List.replicate 3 (.ok s), ⟨some s⟩, c.asked 7) := by
  intro c
  have hfail : ∀ i < 6, ∃ e, answer (c.reply i) = .error e := by
    have hnone : ∀ i < 6, (answer (c.reply i)).toOption.isNone = true := by decide +kernel
    intro i hi
    have hi := hnone i hi
    cases h : answer (c.reply i) with
    | error e => exact ⟨e, rfl⟩
    | ok s => rw [h] at hi; cases hi
  have hloaded : (answer (c.reply 6)).toOption.isSome = true := by decide +kernel
  cases hs : answer (c.reply 6) with
  | error e => rw [hs] at hloaded; cases hloaded
  | ok s => exact ⟨hfail, s, rfl, (asks_until_loaded c).2.2.1 6 s hfail hs 2⟩

end Gate

end SchemaWalk
