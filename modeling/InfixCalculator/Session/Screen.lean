import InfixCalculator.Session.Frame

/-!
# The screen

What the window shows, in the order in which it is drawn, and which event a
click on it causes.  The error is shown only when there is one, and the button
that clears the history only when there is something to clear.
-/

namespace InfixCalculator

inductive Widget where
  | label (text : String)
  | field (text : String)
  | button (button : Button)
  | header (text : String)
  | line (number : Nat) (entry : Entry)
deriving DecidableEq, Repr

namespace Widget

def text : Widget → String
  | label text | field text | header text => text
  | button b => b.label
  | line _ entry => entry.expression ++ " = " ++ entry.outcome

/-- The event caused by a click, for the widgets that can be clicked. -/
def event? : Widget → Option Event
  | button b => some (.click b)
  | line number _ => some (.restore number)
  | _ => none

def key (k : Key) : Widget := button (.key k)

def digit (d : Fin 10) : Widget := key (.digit d)

end Widget

namespace Screen
open Widget

def actions : List Widget :=
  [button .clearEntry, button .clearResults, button .reset, key .leftParen, key .rightParen] ++
    Operator.all.map (key <| .operator ·) ++ [button .evaluate]

def pad : List Widget :=
  [digit 7, digit 8, digit 9, button .erase,
   digit 4, digit 5, digit 6, label "",
   digit 1, digit 2, digit 3, key .point,
   digit 0, label "", label "", label ""]

/-- The panel of the history, newest entry first. -/
def history (history : History) : List Widget :=
  let count := history.entries.length.repr ++ "/" ++ history.capacity.repr
  header ("Historique (" ++ count ++ ")") ::
    if history.entries.isEmpty then [label "vide"]
    else history.entries.reverse.mapIdx line ++ [button .clearHistory]

end Screen

namespace Session
open Widget

def screen (session : Session) : List Widget :=
  [label "Calculatrice RPN", label "Entrée :", field session.entry] ++
    Screen.actions ++ Screen.pad ++
    (if session.error = "" then [] else [label session.error]) ++
    [label "Résultat :", label session.result, header "Démarche",
     label "Jetons :", label session.working.tokens,
     label "Postfixe :", label session.working.postfixTokens] ++
    Screen.history session.history

/-- The event caused by a click on the first widget with a given text that can
be clicked. -/
def eventAt? (session : Session) (text : String) : Option Event :=
  session.screen.findSome? fun widget =>
    if widget.text = text then widget.event? else none

end Session
end InfixCalculator
