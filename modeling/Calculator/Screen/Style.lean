import Calculator.Text.Basic

namespace Calculator

inductive Color where
  | black
  | red
  | green
  | yellow
  | blue
  | magenta
  | cyan
  | gray
  | darkGray
  | lightRed
  | lightGreen
  | lightYellow
  | lightBlue
  | lightMagenta
  | lightCyan
  | white
  | rgb (red green blue : Nat)
  deriving DecidableEq, Repr

/-- A style; what is left open stays as it was where the style is laid on. -/
structure Style where
  foreground : Option Color := none
  background : Option Color := none
  bold : Bool := false
  underlined : Bool := false
  reversed : Bool := false
  deriving DecidableEq, Repr

def Style.over (top base : Style) : Style where
  foreground := top.foreground <|> base.foreground
  background := top.background <|> base.background
  bold := top.bold || base.bold
  underlined := top.underlined || base.underlined
  reversed := top.reversed || base.reversed

structure Span where
  content : Text
  style : Style := {}
  deriving DecidableEq, Repr

end Calculator
