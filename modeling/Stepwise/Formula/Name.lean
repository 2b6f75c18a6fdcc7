import Stepwise.Formula.Numeric
import Stepwise.Settings.Config
import Stepwise.Term.Function
import Stepwise.Text.Letter

/-!
# Names in formulas

A name in a formula is a constant, a callable or a variable. The names that a configuration adds
come first, among them `e` and the spellings of the infinity, and before all of them the variable
that a request is about. Every other name of several letters is split into its letters, unless it
is the name of a Greek letter or holds an underscore.

Results: `bound_first`, the variable of a request hides whatever else its name means.
-/

namespace Stepwise.Formula

/-- What can be called. -/
inductive Callable where
  | func (f : Func)
  /-- A function that only numbers have values of. -/
  | numeric (f : NumberFunction)
  | add
  | mul
  | pow
  | ratio
  | sqrt
  | cbrt
  | root
  | exp
  /-- The natural logarithm, or with a second argument the logarithm to that base. -/
  | log
  | derivative
  | antiderivative
  | limit
  | expand
  | simplify
  | factor
  | cancel
  | together
  | conjugate
  /-- The angle of a point, given by its second coordinate and its first. -/
  | angle
  /-- The real root of a negative number, where there is one. -/
  | realRoot
  | degrees
  | radians
  | zeta
  /-- The logarithmic derivative of the gamma function. -/
  | digamma
  /-- The value of its argument. -/
  | value
  | greatest
  | least
  /-- What is built from its arguments as they are. -/
  | form (f : Form)
  /-- A known name that formulas cannot call. -/
  | other
  deriving DecidableEq

/-- What a name stands for. -/
inductive Meaning where
  | term (t : Term)
  | callable (c : Callable)

/-- The functions by their names. -/
def functions : List (Text × Callable) :=
  [("sin", .func .sin), ("cos", .func .cos), ("tan", .func .tan), ("cot", .func .cot),
    ("sec", .func .sec), ("csc", .func .csc), ("asin", .func .asin), ("acos", .func .acos),
    ("atan", .func .atan), ("acot", .func .acot), ("asec", .func .asec), ("acsc", .func .acsc),
    ("sinh", .func .sinh), ("cosh", .func .cosh), ("tanh", .func .tanh), ("coth", .func .coth),
    ("sech", .func .sech), ("csch", .func .csch), ("asinh", .func .asinh),
    ("acosh", .func .acosh), ("atanh", .func .atanh), ("acoth", .func .acoth),
    ("Abs", .func .abs), ("sign", .func .sign), ("floor", .func .floor),
    ("ceiling", .func .ceiling), ("factorial", .func .factorial),
    ("factorial2", .func .doubleFactorial), ("gamma", .func .gamma),
    ("erf", .func .erf), ("erfi", .func .erfi), ("Si", .func .sineIntegral),
    ("Ci", .func .cosineIntegral), ("Ei", .func .expIntegral), ("li", .func .logIntegral),
    ("fresnels", .func .fresnelSine), ("fresnelc", .func .fresnelCosine),
    ("LambertW", .func .lambert), ("re", .func .realPart), ("im", .func .imaginaryPart),
    ("Derivative", .form .derivative), ("Subs", .form .substituted),
    ("Piecewise", .form .piecewise), ("Ne", .form .unequal), ("Eq", .form .equal),
    ("polygamma", .form .polygamma), ("uppergamma", .form .upperGamma),
    ("lowergamma", .form .lowerGamma), ("True", .form .always), ("sqrt", .sqrt), ("cbrt", .cbrt),
    ("root", .root), ("exp", .exp), ("log", .log), ("ln", .log), ("diff", .derivative),
    ("integrate", .antiderivative), ("limit", .limit), ("expand", .expand),
    ("simplify", .simplify), ("S", .value), ("sympify", .value), ("Integer", .value),
    ("Max", .greatest), ("Min", .least), ("max", .greatest), ("min", .least),
    ("Rational", .ratio), ("Add", .add), ("Mul", .mul), ("Pow", .pow), ("pow", .pow),
    ("factor", .factor), ("cancel", .cancel), ("together", .together),
    ("conjugate", .conjugate), ("atan2", .angle), ("real_root", .realRoot), ("deg", .degrees),
    ("rad", .radians), ("gcd", .numeric .greatestDivisor), ("lcm", .numeric .leastMultiple),
    ("Mod", .numeric .remainder), ("binomial", .numeric .binomial), ("rf", .numeric .rising),
    ("ff", .numeric .falling), ("fibonacci", .numeric .fibonacci), ("lucas", .numeric .lucas),
    ("catalan", .numeric .catalan), ("harmonic", .numeric .harmonic),
    ("bernoulli", .numeric .bernoulli), ("zeta", .zeta), ("digamma", .digamma),
    ("round", .numeric .nearest), ("frac", .numeric .fractional)].map fun (n, c) => (n.toList, c)

/-- Known names that are neither constants nor among `functions`. -/
def otherNames : List Text :=
  Text.splitOn ' ' ("N O Q Lt Le Gt Ge Rel Symbol Function Number Float Basic Expr Atom Dummy " ++
    "Wild Tuple Dict Lambda Integral Limit Order Poly Sum Product And Or Not Xor Nand Nor " ++
    "Implies Equivalent ITE true false symbols var prod evalf evaluate use ordered ask refine " ++
    "assuming degree pdiv prem div rem quo exquo gcdex invert resultant discriminant " ++
    "cofactors trunc monic content primitive compose decompose sturm gff sqf intervals " ++
    "reduced groebner poly symmetrize horner interpolate viete isolate lex grlex grevlex " ++
    "ilex rootof roots ring xring field xfield apart gruntz series approximants residue " ++
    "sequence fps subfactorial motzkin tribonacci bell euler genocchi andre " ++
    "partition mobius totient primepi Id Rem arg transpose adjoint polarify unpolarify " ++
    "sinc asech acsch erfc erf2 erfinv expint E1 Li Shi Chi loggamma trigamma " ++
    "lerchphi polylog stieltjes DiracDelta Heaviside besselj bessely besseli besselk " ++
    "jn yn airyai airybi hyper meijerg legendre hermite chebyshevt chebyshevu laguerre " ++
    "gegenbauer jacobi Ynm Znm beta betainc prime nextprime prevprime randprime primorial " ++
    "composite isprime divisors factorint multiplicity primefactors product summation fft " ++
    "ifft ntt intt fwht convolution posify signsimp nsimplify FU fu sqrtdenest cse epath " ++
    "collect rcollect radsimp fraction numer denom trigsimp powsimp powdenest combsimp " ++
    "gammasimp ratsimp Set Interval Union FiniteSet Range Contains solve rsolve pdsolve " ++
    "dsolve solveset linsolve nonlinsolve substitution diag eye hessian ones zeros " ++
    "wronskian symarray Matrix Inverse Trace Transpose Determinant det trace per Point " ++
    "Line Ray Segment Plane Ellipse Circle Polygon Triangle Curve Parabola centroid idiff " ++
    "intersection flatten group take subsets variations cartes capture prefixes postfixes " ++
    "sift reshape rotations filldedent lambdify threaded public timed Idx Indexed " ++
    "IndexedBase shape Array singularities periodicity minimum maximum AccumBounds " ++
    "Quaternion pretty pprint latex mathml ccode fcode rcode jscode srepr " ++
    "sstr preview dotprint plot textplot test doctest igcd ilcm trailing comp vectorize " ++
    "GF FF ZZ QQ RR CC EX LC LM LT ZZ_I QQ_I Options abs all any ascii bin callable chr " ++
    "compile dir divmod eval exec format getattr globals hasattr hash hex id input " ++
    "isinstance issubclass iter len locals next oct open ord print repr setattr sorted " ++
    "sum vars").toList

/-- The words that no formula can use as a name. -/
def keywords : List Text :=
  Text.splitOn ' ' ("False None and as assert async await break class continue def del elif " ++
    "else except finally for from global if import in is lambda nonlocal not or pass raise " ++
    "return try while with yield").toList

/-- The names of the Greek letters. -/
def greekLetters : List Text :=
  Text.splitOn ' ' ("alpha beta gamma delta epsilon zeta eta theta iota kappa lamda mu nu " ++
    "xi omicron pi rho sigma tau upsilon phi chi psi omega heta stigma digamma koppa sampi sho " ++
    "san").toList

/-- The names that a formula is read with. -/
structure Names where
  /-- The variable that the request is about. -/
  bound : Option Symbol
  /-- Further names of functions. -/
  aliases : List (Text × Text)

namespace Names

/-- The names that every configuration adds. -/
def added : List (Text × Meaning) :=
  [("e".toList, .term .e), ("pi".toList, .term .pi), ("oo".toList, .term (.infinity false)),
    ("inf".toList, .term (.infinity false)), ("infinity".toList, .term (.infinity false)),
    ("ln".toList, .callable .log), ("abs".toList, .callable (.func .abs))]

/-- The constants by their names. -/
def constants : List (Text × Meaning) :=
  [.e, .i, .eulerGamma, .catalan, .goldenRatio, .tribonacci].map
      (fun (c : Constant) => (c.name, .term (.constant c))) ++
    [("zoo".toList, .term .complexInfinity), ("nan".toList, .term .undefined)]

/-- The first entry under a name. -/
def lookUp {α : Type} (name : Text) (entries : List (Text × α)) : Option α :=
  (entries.find? fun p => p.1 = name).map Prod.snd

/-- What a name stands for, unless it is to be read as a variable. -/
def find? (names : Names) (name : Text) : Option Meaning :=
  match names.bound with
  | some s => if s.name = name then some (.term (.symbol s)) else rest
  | none => rest
where
  rest : Option Meaning :=
    match lookUp name names.aliases with
    | some f => (lookUp f functions).map .callable
    | none =>
      match lookUp name (added ++ constants) with
      | some m => some m
      | none =>
        match lookUp name functions with
        | some c => some (.callable c)
        | none => if otherNames.contains name then some (.callable .other) else none

/-- Is a name of several letters kept as one variable? -/
def isWhole (name : Text) : Bool :=
  name.length ≤ 1 || name.contains '_' || greekLetters.contains (Text.lowerText name)

theorem bound_first (s : Symbol) (aliases : List (Text × Text)) :
    (Names.mk (some s) aliases).find? s.name = some (.term (.symbol s)) := by
  simp [find?]

end Names

end Stepwise.Formula
