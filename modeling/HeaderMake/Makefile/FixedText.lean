import HeaderMake.Text

/-!
# Fixed Makefile text

The parts of the Makefile that do not depend on the sources: what stands before the
object lists, which depends on the library directory and on the selected flags only, and
the targets between the object lists and the compile rules.
-/

namespace HeaderMake
namespace Makefile

/-- Lines, each ended by a line feed. -/
def unlines (lines : List String) : Text :=
  lines.flatMap fun line => line.toList ++ ['\n']

/-- The comment at the top of the Makefile. -/
def header : Text := unlines
  [ "# This file is generated by dmake, do not edit.",
    "" ]

/-- A variable that keeps the value it has, and takes the given one if it has none. -/
def conditionalVariable (name value : Text) : Text :=
  "ifndef ".toList ++ name ++ "\n    ".toList ++ name ++ "=".toList ++ value ++
    "\nendif\n\n".toList

/-- Runs the match compiler when the sources are built from the build directory. -/
def matchCompiler : Text := unlines
  [ "ifeq ($(SRCDIR),build)",
    "    ifdef VERIFY",
    "        matchcompiler_S := $(shell python tools/matchcompiler.py --verify)",
    "    else",
    "        matchcompiler_S := $(shell python tools/matchcompiler.py)",
    "    endif",
    "endif",
    "" ]

/-- Passes the configuration directory on to the compiler. -/
def configurationDirectory : Text := unlines
  [ "ifdef CFGDIR",
    "    CFG=-DCFGDIR=\\\"$(CFGDIR)\\\"",
    "else",
    "    CFG=",
    "endif",
    "" ]

/-- Detects the platform and sets the flags that depend on it. -/
def platform : Text := unlines
  [ "# Set the CPPCHK_GLIBCXX_DEBUG flag. This flag is not used in release Makefiles.",
    "# The _GLIBCXX_DEBUG define doesn't work in Cygwin or other Win32 systems.",
    "ifndef COMSPEC",
    "    ifdef ComSpec",
    "        #### ComSpec is defined on some WIN32's.",
    "        COMSPEC=$(ComSpec)",
    "    endif # ComSpec",
    "endif # COMSPEC",
    "",
    "ifdef COMSPEC",
    "    #### Maybe Windows",
    "    ifndef CPPCHK_GLIBCXX_DEBUG",
    "        CPPCHK_GLIBCXX_DEBUG=",
    "    endif # !CPPCHK_GLIBCXX_DEBUG",
    "",
    "    ifeq ($(MSYSTEM),MINGW32 MINGW64)",
    "        LDFLAGS=-lshlwapi",
    "    else",
    "        RDYNAMIC=-lshlwapi",
    "    endif",
    "else # !COMSPEC",
    "    uname_S := $(shell sh -c 'uname -s 2>/dev/null || echo not')",
    "",
    "    ifeq ($(uname_S),Linux)",
    "        ifndef CPPCHK_GLIBCXX_DEBUG",
    "            CPPCHK_GLIBCXX_DEBUG=-D_GLIBCXX_DEBUG",
    "        endif # !CPPCHK_GLIBCXX_DEBUG",
    "    endif # Linux",
    "",
    "    ifeq ($(uname_S),GNU/kFreeBSD)",
    "        ifndef CPPCHK_GLIBCXX_DEBUG",
    "            CPPCHK_GLIBCXX_DEBUG=-D_GLIBCXX_DEBUG",
    "        endif # !CPPCHK_GLIBCXX_DEBUG",
    "    endif # GNU/kFreeBSD",
    "",
    "endif # COMSPEC",
    "" ]

/-- Works around strict headers on one platform. -/
def strictAnsi : Text := unlines
  [ "# Set the UNDEF_STRICT_ANSI flag to address compile time warnings",
    "# with tinyxml2 and Cygwin.",
    "ifdef COMSPEC",
    "    uname_S := $(shell uname -s)",
    "",
    "    ifneq (,$(findstring CYGWIN,$(uname_S)))",
    "        UNDEF_STRICT_ANSI=-U__STRICT_ANSI__",
    "    endif # CYGWIN",
    "endif # COMSPEC",
    "" ]

/-- Selects the language standard for the compilers that need to be told. -/
def standardFlags : Text := unlines
  [ "ifeq (g++, $(findstring g++,$(CXX)))",
    "    override CXXFLAGS += -std=c++0x",
    "else ifeq (clang++, $(findstring clang++,$(CXX)))",
    "    override CXXFLAGS += -std=c++0x",
    "else ifeq ($(CXX), c++)",
    "    ifeq ($(shell uname -s), Darwin)",
    "        override CXXFLAGS += -std=c++0x",
    "    endif",
    "endif",
    "" ]

/-- Adds the flags and libraries that rules need. -/
def rulesSupport : Text := unlines
  [ "ifeq ($(HAVE_RULES),yes)",
    "    override CXXFLAGS += -DHAVE_RULES -DTIXML_USE_STL $(shell pcre-config --cflags)",
    "    ifdef LIBS",
    "        LIBS += $(shell pcre-config --libs)",
    "    else",
    "        LIBS=$(shell pcre-config --libs)",
    "    endif",
    "endif",
    "" ]

/-- The variables of the install and manual targets. -/
def installVariables : Text := unlines
  [ "BIN=$(DESTDIR)$(PREFIX)/bin",
    "",
    "# For 'make man': sudo apt-get install xsltproc docbook-xsl docbook-xml on Linux",
    "DB2MAN?=/usr/share/sgml/docbook/stylesheet/xsl/nwalsh/manpages/docbook.xsl",
    "XP=xsltproc -''-nonet -''-param man.charmap.use.subset \"0\"",
    "MAN_SOURCE=man/cppcheck.1.xml",
    "" ]

/-- Keeps the debugging flag from a compiler that does not know it. -/
def debugFlagGuard : Text := unlines
  [ "ifeq (clang++, $(findstring clang++,$(CXX)))",
    "    CPPCHK_GLIBCXX_DEBUG=",
    "endif" ]

/-- The text of the Makefile up to the object lists. -/
def preamble (libraryDirectory compilerFlags : Text) : Text :=
  let library := libraryDirectory.dropTrailingSlashes
  let includes := "-I".toList ++ library ++ " -Iexternals/simplecpp -Iexternals/tinyxml".toList
  let testIncludes :=
    "-I".toList ++ library ++ " -Icli -Iexternals/simplecpp -Iexternals/tinyxml".toList
  header ++
    "# To compile with rules, use 'make HAVE_RULES=yes'\n".toList ++
    conditionalVariable "HAVE_RULES".toList "no".toList ++
    "# folder where ".toList ++ library ++ "/*.cpp files are located\n".toList ++
    conditionalVariable "SRCDIR".toList library ++
    matchCompiler ++
    configurationDirectory ++
    "RDYNAMIC=-rdynamic\n".toList ++
    platform ++
    strictAnsi ++
    conditionalVariable "CXX".toList "g++".toList ++
    debugFlagGuard ++
    conditionalVariable "CXXFLAGS".toList compilerFlags ++
    standardFlags ++
    rulesSupport ++
    conditionalVariable "PREFIX".toList "/usr".toList ++
    conditionalVariable "INCLUDE_FOR_LIB".toList includes ++
    conditionalVariable "INCLUDE_FOR_CLI".toList includes ++
    conditionalVariable "INCLUDE_FOR_TEST".toList testIncludes ++
    installVariables ++
    "\n###### Object Files\n\n".toList

/-- The targets between the object lists and the compile rules. -/
def targets : Text := unlines
  [ ".PHONY: run-dmake tags",
    "",
    "",
    "###### Targets",
    "",
    "cppcheck: $(LIBOBJ) $(CLIOBJ) $(EXTOBJ)",
    "\t$(CXX) $(CPPFLAGS) $(CXXFLAGS) -o $@ $(CLIOBJ) $(LIBOBJ) $(EXTOBJ) $(LIBS) $(LDFLAGS) $(RDYNAMIC)",
    "",
    "all:\tcppcheck testrunner",
    "",
    "testrunner: $(TESTOBJ) $(LIBOBJ) $(EXTOBJ) cli/threadexecutor.o cli/cmdlineparser.o cli/cppcheckexecutor.o cli/filelister.o",
    "\t$(CXX) $(CPPFLAGS) $(CXXFLAGS) -o $@ $(TESTOBJ) $(LIBOBJ) cli/threadexecutor.o cli/cppcheckexecutor.o cli/cmdlineparser.o cli/filelister.o $(EXTOBJ) $(LIBS) $(LDFLAGS) $(RDYNAMIC)",
    "",
    "test:\tall",
    "\t./testrunner",
    "",
    "check:\tall",
    "\t./testrunner -q",
    "",
    "checkcfg:\tcppcheck",
    "\t./test/cfg/runtests.sh",
    "",
    "run-dmake:",
    "\tdmake",
    "",
    "reduce:\ttools/reduce.o $(LIBOBJ) $(EXTOBJ)",
    "\t$(CXX) $(CPPFLAGS) $(CXXFLAGS) -g -o $@ tools/reduce.o $(INCLUDE_FOR_LIB) $(LIBOBJ) $(LIBS) $(EXTOBJ) $(LDFLAGS) $(RDYNAMIC)",
    "",
    "clean:",
    "\trm -f build/*.o lib/*.o cli/*.o test/*.o tools/*.o externals/*/*.o testrunner reduce cppcheck cppcheck.1",
    "",
    "man:\tman/cppcheck.1",
    "",
    "man/cppcheck.1:\t$(MAN_SOURCE)",
    "",
    "\t$(XP) $(DB2MAN) $(MAN_SOURCE)",
    "",
    "tags:",
    "\tctags -R --exclude=doxyoutput --exclude=test/cfg cli externals gui lib test",
    "",
    "install: cppcheck",
    "\tinstall -d $\x7bBIN\x7d",
    "\tinstall cppcheck $\x7bBIN\x7d",
    "\tinstall addons/*.py $\x7bBIN\x7d",
    "\tinstall addons/*/*.py $\x7bBIN\x7d",
    "\tinstall htmlreport/cppcheck-htmlreport $\x7bBIN\x7d",
    "ifdef CFGDIR",
    "\tinstall -d $\x7bDESTDIR\x7d$\x7bCFGDIR\x7d",
    "\tinstall -m 644 cfg/* $\x7bDESTDIR\x7d$\x7bCFGDIR\x7d",
    "endif",
    "",
    "# Validation of library files:",
    "ConfigFiles := $(wildcard cfg/*.cfg)",
    "ConfigFilesCHECKED := $(patsubst %.cfg,%.checked,$(ConfigFiles))",
    ".PHONY: validateCFG",
    "%.checked:%.cfg",
    "\txmllint --noout --relaxng cfg/cppcheck-cfg.rng $<",
    "validateCFG: $\x7bConfigFilesCHECKED\x7d",
    "",
    "",
    "###### Build",
    "" ]

end Makefile
end HeaderMake
