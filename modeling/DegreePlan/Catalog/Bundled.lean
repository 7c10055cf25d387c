import DegreePlan.Catalog.Table
import DegreePlan.Json.Printer
import DegreePlan.Requirement.Wire

/-!
# The bundled catalog

The catalog that a service has before it is given one of its own.
-/

namespace DegreePlan.Catalog

/-- The prerequisites of the course on algorithms: data structures, and one of two courses on
    discrete mathematics. -/
def algorithms : Requirement :=
  .all [.course "CS 1332" (some .c),
    .any [.course "CS 2050" (some .c), .course "MATH 3012" (some .c)]]

/-- The lines of the bundled catalog. -/
def bundledLines : List String := [
  "course_code,title,credits,prereqs,prereq_json,offerings",
  "CS 1301,Introduction to Computing,3,none,,Fall;Spring;Summer",
  "CS 1331,Intro to Object Oriented Programming,3,CS 1301 Minimum Grade of C,,Fall;Spring;Summer",
  "CS 1332,Data Structures and Algorithms,3,CS 1331 Minimum Grade of C,,Fall;Spring;Summer",
  "CS 2050,Introduction to Discrete Math for CS,3,none,,Fall;Spring;Summer",
  "CS 2110,Computer Organization and Programming,4,CS 1331 Minimum Grade of C,," ++
    "Fall;Spring;Summer",
  "CS 2340,Objects and Design,3,CS 1331 Minimum Grade of C,,Fall;Spring",
  "CS 3510,Design and Analysis of Algorithms,3,," ++ Table.quoteField algorithms.wire.print ++
    ",Fall;Spring",
  "CS 3600,Introduction to Artificial Intelligence,3,CS 1332; CS 2050 or MATH 3012,,Fall;Spring",
  "CS 4641,Machine Learning,3,CS 1331; MATH 2550 or MATH 2551; ISYE 3770 or MATH 3670,," ++
    "Fall;Spring",
  "MATH 1551,Differential Calculus,2,none,,Fall;Spring;Summer",
  "MATH 1552,Integral Calculus,4,MATH 1551 Minimum Grade of D,,Fall;Spring;Summer",
  "MATH 1554,Linear Algebra,4,none,,Fall;Spring;Summer",
  "MATH 2550,Introduction to Multivariable Calculus,2,MATH 1552,,Fall;Spring",
  "MATH 2551,Multivariable Calculus,4,MATH 1552,,Fall;Spring;Summer",
  "MATH 3012,Applied Combinatorics,3,MATH 1552 or MATH 1554,,Fall;Spring;Summer",
  "MATH 3670,Probability and Statistics with Applications,3,MATH 1552,,Fall;Spring",
  "ISYE 3770,Statistics and Applications,3,MATH 1552,,Fall;Spring;Summer",
  "ENGL 1101,English Composition I,3,none,,Fall;Spring;Summer",
  "ENGL 1102,English Composition II,3,ENGL 1101,,Fall;Spring;Summer",
  "CS 4510,Automata and Complexity,3,Two courses from: CS 3510 or CS 2050 or MATH 3012,,Spring"]

/-- The text of the bundled catalog. -/
def bundled : String := String.join (bundledLines.map (· ++ "\n"))

end DegreePlan.Catalog
