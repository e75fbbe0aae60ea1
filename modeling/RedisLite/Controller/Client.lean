import RedisLite.Lib.Search
import RedisLite.Resp

namespace RedisLite.Controller

open Lib.Numerals Lib.Search

/-- `encodeRESP`: the builder starts with the header and takes one bulk string after the
other. -/
def encodeRESP (args : List Bytes) : Bytes :=
  args.foldl (fun b arg ↦ b ++ (ascii "$" ++ decimal arg.length ++ crlf ++ arg ++ crlf))
    (ascii "*" ++ decimal args.length ++ crlf)

/-- What `sendCommand` returns: the bytes of its one `Read`, or an error. -/
abbrev Response := Option Bytes

def contains (resp pat : Bytes) : Bool := (find? pat resp).isSome

/-- `strings.Split(resp, "\r\n")`. -/
def splitLines : Bytes → List Bytes
  | [] => [[]]
  | 13 :: 10 :: rest => [] :: splitLines rest
  | b :: rest =>
    match splitLines rest with
    | [] => [[b]]
    | line :: lines => (b :: line) :: lines

def ping (resp : Response) : Bool := resp.any (contains · (ascii "+PONG"))

def roleValues (resp : Bytes) : List Bytes :=
  (splitLines resp).filterMap (fun line ↦
    match line with
    | [] => none
    | 42 :: _ => none
    | 36 :: _ => none
    | 58 :: rest => some rest
    | line => some line)

/-- The `Role` field of `Role`'s result; fewer than two values are an error. -/
def role (resp : Response) : Option Bytes :=
  resp.bind (fun r ↦
    match roleValues r with
    | value :: _ :: _ => some value
    | _ => none)

def info (resp : Response) : Option (Bytes → Option Bytes) :=
  resp.map (fun r ↦ (splitLines r).foldl (fun fields line ↦
    match find? (ascii ":") line with
    | some (idx + 1) =>
      Function.update fields (line.take (idx + 1)) (some (line.drop (idx + 2)))
    | _ => fields) (fun _ ↦ none))

def replicaOf (resp : Response) : Bool := resp.any (contains · (ascii "+OK"))

theorem encodeRESP_eq (args : List Bytes) : encodeRESP args = Resp.encodeArray args := by
  have hfold (b : Bytes) : args.foldl (fun b arg ↦
      b ++ (ascii "$" ++ decimal arg.length ++ crlf ++ arg ++ crlf)) b =
        b ++ args.flatMap Resp.encodeBulkString := by
    induction args generalizing b with
    | nil => rw [List.foldl_nil, List.flatMap_nil, List.append_nil]
    | cons arg args ih =>
      rw [List.foldl_cons, ih, List.flatMap_cons, List.append_assoc]
      rfl
  exact hfold _

/-- The parser undoes both encoders, whatever follows, and takes exactly the encoding; so no
encoding of other arguments begins with this one. -/
theorem parse_undoes_encode (args : List Bytes) (hlen : args.length < 2 ^ 31)
    (hargs : ∀ arg ∈ args, arg.length < 2 ^ 31) :
    (∀ rest, Resp.parse (Resp.encodeArray args ++ rest) =
      { args := args, bytesConsumed := (Resp.encodeArray args).length }) ∧
    encodeRESP args = Resp.encodeArray args ∧
    (∀ rest, Resp.parse (encodeRESP args ++ rest) =
      { args := args, bytesConsumed := (encodeRESP args).length }) ∧
    ∀ args', args'.length < 2 ^ 31 → (∀ arg ∈ args', arg.length < 2 ^ 31) →
      (Resp.encodeArray args = Resp.encodeArray args' → args = args') ∧
      (Resp.encodeArray args <+: Resp.encodeArray args' →
        Resp.encodeArray args = Resp.encodeArray args') := by
  have hparse {args : List Bytes} (h : Resp.Sized args) (rest : Bytes) :
      Resp.parse (Resp.encodeArray args ++ rest) =
        { args := args, bytesConsumed := (Resp.encodeArray args).length } := by
    rw [Resp.parse_eq_next, Resp.next_encode h rest]
  have hsized : Resp.Sized args := ⟨hlen, hargs⟩
  refine ⟨hparse hsized, encodeRESP_eq args, fun rest ↦ ?_, fun args' hlen' hargs' ↦ ?_⟩
  · rw [encodeRESP_eq]
    exact hparse hsized rest
  · have hunique {more : Bytes} (h : Resp.encodeArray args ++ more = Resp.encodeArray args') :
        args = args' := by
      have h₁ := hparse hsized more
      have h₂ := hparse ⟨hlen', hargs'⟩ []
      rw [h, ← List.append_nil (Resp.encodeArray args'), h₂] at h₁
      exact (congrArg ParseResult.args h₁).symm
    refine ⟨fun h ↦ ?_, fun ⟨more, h⟩ ↦ by rw [hunique h]⟩
    rw [← List.append_nil (Resp.encodeArray args)] at h
    exact hunique h

/-- Arguments that look like a header, a terminator and nothing at all. -/
theorem parse_undoes_encode_headers :
    Resp.parse (encodeRESP [ascii "*1\r\n$", crlf, []] ++ ascii "*") =
      { args := [ascii "*1\r\n$", crlf, []],
        bytesConsumed := (encodeRESP [ascii "*1\r\n$", crlf, []]).length } :=
  (parse_undoes_encode [ascii "*1\r\n$", crlf, []] (by decide) (by decide)).2.2.1 (ascii "*")

end RedisLite.Controller
