import InfixCalculator.Calculation
import InfixCalculator.Journal.Record
import InfixCalculator.Text.Quoted

/-!
# The journal of a calculation

The records that a calculation leaves: its tokens, the operators released
during the conversion, the postfix order, each operation that is carried out,
and the value.  A step that is refused ends the journal of its stage, and no
later stage has one.
-/

namespace InfixCalculator.Journal

def operatorName : Operator → String
  | .plus => "Plus"
  | .minus => "Moins"
  | .times => "Fois"
  | .divide => "Divise"
  | .modulo => "Modulo"
  | .floorDivide => "DiviseEntier"
  | .power => "Puissance"
  | .caret => "Chapeau"

def tokenName : Token → String
  | .number value => "Num(" ++ Decimal.Style.token.render value ++ ")"
  | .operator op => "Op(" ++ operatorName op ++ ")"
  | .unknown text => "Inconnu(" ++ Text.quote text ++ ")"
  | .leftParen => "LPar"
  | .rightParen => "RPar"

def released (precedence : Nat) (waiting : Token) : Record where
  level := .trace
  source := .conversion
  message :=
    "dépile " ++ tokenName waiting ++ " (précédence >= " ++ precedence.repr ++ ")"

/-- The records of one step of a conversion.  Only operators and unknown symbols
are recorded as the cause of a release. -/
def ofRelease (token : Token) (output : List Token) : List Record :=
  match token with
  | .operator _ | .unknown _ => output.map (released token.precedence)
  | _ => []

def ofConversion (pending : Rpn.Pending) : List Token → List Record
  | [] => []
  | token :: tokens =>
    match pending.step token with
    | .ok (output, next) => ofRelease token output ++ ofConversion next tokens
    | .error _ => []

def operation (op : Operator) (left right value : Float) : Record where
  level := .trace
  source := .evaluation
  message :=
    let text := Decimal.Style.token.render
    text left ++ " " ++ op.symbol ++ " " ++ text right ++ " = " ++ text value

/-- The records of one step of an evaluation, from the values before and after. -/
def ofPush (token : Token) (before after : List Float) : List Record :=
  match token, before, after with
  | .operator op, right :: left :: _, value :: _ => [operation op left right value]
  | _, _, _ => []

def ofEvaluation (values : List Float) : List Token → List Record
  | [] => []
  | token :: tokens =>
    match Rpn.push values token with
    | .ok next => ofPush token values next ++ ofEvaluation next tokens
    | .error _ => []

def tokensRead (text : String) (tokens : List Token) : List Record :=
  let list := Token.render tokens
  [⟨.trace, .tokens, "tokenize(" ++ Text.quote text ++ ") -> " ++ list⟩,
   ⟨.debug, .calculation, "jetons: [" ++ list ++ "]"⟩]

def converted (rpn : List Token) : Record :=
  ⟨.debug, .calculation, "postfixe: [" ++ Token.render rpn ++ "]"⟩

def evaluated (text : String) (value : Float) : Record :=
  ⟨.debug, .calculation, Text.quote text ++ " = " ++ Decimal.Style.token.render value⟩

def refused (source : Source) (text : String) (refusal : Refusal) : Record :=
  ⟨.warn, source, "expression refusée " ++ Text.quote text ++ ": " ++ refusal.message⟩

def ofCalculation (text : String) : List Record :=
  let tokens := Token.tokenize text
  let stages :=
    match Rpn.ofInfix tokens with
    | .error _ => []
    | .ok rpn =>
      let value :=
        match Rpn.evaluate rpn with
        | .ok value => [evaluated text value]
        | .error _ => []
      converted rpn :: ofEvaluation [] rpn ++ value
  tokensRead text tokens ++ ofConversion .start tokens ++ stages

/-- The records of a calculation made for a part of the program, which records a
refusal itself. -/
def ofAttempt (source : Source) (text : String) : List Record :=
  let refusal :=
    match evaluate text with
    | .ok _ => []
    | .error refusal => [refused source text refusal]
  ofCalculation text ++ refusal

/-- The records of the evaluation of an entry in the window.  A blank entry leaves
none. -/
def ofEntry (entry : String) : List Record :=
  let expression := Text.trim entry
  if expression = "" then [] else ofAttempt .window expression

end InfixCalculator.Journal
