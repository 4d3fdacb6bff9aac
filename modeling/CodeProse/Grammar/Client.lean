/-
# A client for grammar servers

Asks a server that speaks the protocol of LanguageTool: the sentence is posted as a form, and the
answer is JSON. The server knows nothing of the caller's dictionary, so findings on words of the
dictionary are dropped from its answer.
-/
import CodeProse.Grammar.Response
import CodeProse.Grammar.Sentence
import CodeProse.Http.Url

namespace CodeProse.Grammar

/-- A request as it is sent. -/
structure HttpRequest where
  url : Http.Url
  method : Text := "POST".toList
  contentType : Text := "application/x-www-form-urlencoded".toList
  body : Text
  deriving DecidableEq, Repr, Inhabited

/-- What comes back. -/
inductive HttpReply where
  | answer (status : Nat) (body : Text)
  /-- The connection was closed, or never came about. -/
  | dropped
  deriving DecidableEq, Repr, Inhabited

namespace Client

/-- The address that is asked, below a base address. -/
def endpoint (base : Text) : Text :=
  (base.reverse.dropWhile (· == '/')).reverse ++ "/v2/check".toList

/-- The tag of a language: underscores become hyphens. -/
def languageTag (language : Text) : Text :=
  language.map fun c => if c = '_' then '-' else c

/-- The request for a question; `none` if the address cannot be used. -/
def request? (base : Text) (question : GrammarRequest) : Option HttpRequest :=
  (Http.Url.read? (endpoint base)).map fun url =>
    { url
      body := Http.formBody [("text".toList, question.text),
        ("language".toList, languageTag question.language)] }

/-- Whether a finding is on a word of the dictionary. One that does not fit the sentence is not. -/
def isOnKnownWord (question : GrammarRequest) (m : GrammarMatch) : Bool :=
  match matchRange? question.text m with
  | some (start, stop) =>
    (Text.slice? start stop question.text).any fun word =>
      question.dictionary.contains (Unicode.lowercase word)
  | none => false

/-- Whether a status tells of success. -/
def isSuccess (status : Nat) : Bool :=
  200 ≤ status && status < 300

/-- Whether a reply with this status comes without a body, whatever follows it: "no content" and "not
modified". -/
def isBodiless (status : Nat) : Bool :=
  status == 204 || status == 304

/-- What a reply says about a question. -/
def read (question : GrammarRequest) : HttpReply → Except GrammarError GrammarResponse
  | .dropped => .error (.transport "connection closed".toList)
  | .answer status body =>
    let body := if isBodiless status then [] else body
    if isSuccess status then
      match readResponse? body with
      | some r => .ok { r with found := r.found.filter (!isOnKnownWord question ·) }
      | none => .error (.decode "not a response".toList)
    else .error (.status status body)

/-- The service at a base address, given what the network replies to each request. -/
def service (network : HttpRequest → HttpReply) (base : Text) : GrammarService := fun question =>
  match request? base question with
  | some request => read question (network request)
  | none => .error (.transport "unusable address".toList)

end Client

end CodeProse.Grammar
